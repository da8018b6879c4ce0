/-
What the event loop does with the callbacks it accepts.

Over every run, a callback accepted by `Post` or `PostAfter` is either still
pending or has been invoked once. Immediate callbacks leave the queue in the
order they entered it, and only those that stood in it when `RunOnce` was
entered; timers fire at or after their due time; a `Run` that nobody stopped
returns with nothing left.
-/

import Etlx.Events.Loop
import Mathlib.Algebra.Order.Group.Multiset

namespace Etlx.Events

open Transition (Each each_nil each_snoc)

variable {β : Type}

/-! ### Reading a history -/

def posted (trace : List (Event β)) : List β :=
  trace.filterMap fun
    | .posted cb => some cb
    | _ => none

def drained (trace : List (Event β)) : List β :=
  trace.filterMap fun
    | .drained cb => some cb
    | _ => none

/-- The timers that `PostAfter` accepted, due at the acceptance time plus the delay. -/
def armed (trace : List (Event β)) : List (TimerEntry β) :=
  trace.filterMap fun
    | .armed clock delay cb => some { due := clock + delay, cb := cb }
    | _ => none

def fired (trace : List (Event β)) : List (TimerEntry β) :=
  trace.filterMap fun
    | .fired _ timer _ => some timer
    | _ => none

def accepted (trace : List (Event β)) : List β :=
  trace.filterMap fun
    | .posted cb => some cb
    | .armed _ _ cb => some cb
    | _ => none

def invoked (trace : List (Event β)) : List β :=
  trace.filterMap fun
    | .drained cb => some cb
    | .fired _ timer _ => some timer.cb
    | _ => none

def pending (loop : EventLoop β) : List β :=
  loop.immediate.items ++ loop.timers.items.map TimerEntry.cb

def stopCalled (trace : List (Event β)) : Bool :=
  trace.foldl
    (fun seen event =>
      match event with
      | .enterRun => false
      | .stopped => true
      | _ => seen)
    false

theorem posted_append (earlier later : List (Event β)) :
    posted (earlier ++ later) = posted earlier ++ posted later := List.filterMap_append

theorem drained_append (earlier later : List (Event β)) :
    drained (earlier ++ later) = drained earlier ++ drained later := List.filterMap_append

theorem armed_append (earlier later : List (Event β)) :
    armed (earlier ++ later) = armed earlier ++ armed later := List.filterMap_append

theorem fired_append (earlier later : List (Event β)) :
    fired (earlier ++ later) = fired earlier ++ fired later := List.filterMap_append

theorem accepted_perm (trace : List (Event β)) :
    (accepted trace).Perm (posted trace ++ (armed trace).map TimerEntry.cb) := by
  induction trace with
  | nil => exact List.Perm.nil
  | cons event rest ih =>
      cases event with
      | posted cb => exact ih.cons cb
      | armed clock delay cb => exact (ih.cons cb).trans List.perm_middle.symm
      | _ => exact ih

theorem invoked_perm (trace : List (Event β)) :
    (invoked trace).Perm (drained trace ++ (fired trace).map TimerEntry.cb) := by
  induction trace with
  | nil => exact List.Perm.nil
  | cons event rest ih =>
      cases event with
      | drained cb => exact ih.cons cb
      | fired clock timer others => exact (ih.cons timer.cb).trans List.perm_middle.symm
      | _ => exact ih

theorem mem_armed {trace : List (Event β)} {timer : TimerEntry β}
    (member : timer ∈ armed trace) :
    ∃ clock delay, Event.armed clock delay timer.cb ∈ trace ∧ timer.due = clock + delay := by
  obtain ⟨event, recorded, read⟩ := List.mem_filterMap.mp member
  cases event with
  | armed clock delay cb =>
      cases read
      exact ⟨clock, delay, recorded, rfl⟩
  | _ => cases read

/-! ### The queue and the table against the history -/

def QueueKept (s : System β) : Prop :=
  posted s.trace = drained s.trace ++ s.loop.immediate.items

def TableKept (s : System β) : Prop :=
  (armed s.trace).Perm (fired s.trace ++ s.loop.timers.items)

theorem QueueKept.emit {s : System β} {event : Event β} (kept : QueueKept s)
    (silent : posted [event] = [] ∧ drained [event] = []) : QueueKept (s.emit event) := by
  unfold QueueKept System.emit
  rw [posted_append, drained_append, silent.1, silent.2, List.append_nil, List.append_nil]
  exact kept

theorem QueueKept.step {s next : System β} (kept : QueueKept s) (moved : Step s next) :
    QueueKept next := by
  cases moved with
  | posted cb calling room =>
      unfold QueueKept System.emit
      rw [posted_append, drained_append, kept, Bounded.push_items]
      simp [posted, drained]
  | drained remaining ran cb rest inBatch front =>
      unfold QueueKept System.emit
      rw [posted_append, drained_append, kept, Bounded.pop_items, front]
      simp [posted, drained]
  | _ =>
      first
        | exact kept
        | exact QueueKept.emit kept ⟨rfl, rfl⟩

theorem TableKept.emit {s : System β} {event : Event β} (kept : TableKept s)
    (silent : armed [event] = [] ∧ fired [event] = []) : TableKept (s.emit event) := by
  unfold TableKept System.emit
  rw [armed_append, fired_append, silent.1, silent.2, List.append_nil, List.append_nil]
  exact kept

theorem TableKept.step {s next : System β} (kept : TableKept s) (moved : Step s next) :
    TableKept next := by
  cases moved with
  | armed delay cb calling room =>
      unfold TableKept System.emit
      rw [armed_append, fired_append, Bounded.push_items, ← List.append_assoc]
      exact (kept.append_right _).trans (by simp [armed, fired])
  | fired now ran timer inScan found =>
      obtain ⟨_, front, back, split, erased, _⟩ := find_expired found
      unfold TableKept at kept
      unfold TableKept System.emit
      rw [armed_append, fired_append, Bounded.eraseP_items, erased, List.append_assoc]
      rw [split] at kept
      simpa [armed, fired] using kept.trans (List.perm_middle.append_left _)
  | _ =>
      first
        | exact kept
        | exact TableKept.emit kept ⟨rfl, rfl⟩

theorem accepted_eq {s : System β} (queue : QueueKept s) (table : TableKept s) :
    (accepted s.trace : Multiset β) = (invoked s.trace : Multiset β) + (pending s.loop) := by
  have entered : (accepted s.trace : Multiset β) =
      (posted s.trace : Multiset β) + ((armed s.trace).map TimerEntry.cb) :=
    Multiset.coe_eq_coe.mpr (accepted_perm s.trace)
  have left : (invoked s.trace : Multiset β) =
      (drained s.trace : Multiset β) + ((fired s.trace).map TimerEntry.cb) :=
    Multiset.coe_eq_coe.mpr (invoked_perm s.trace)
  have immediate : (posted s.trace : Multiset β) =
      (drained s.trace : Multiset β) + s.loop.immediate.items := congrArg _ queue
  have timers : ((armed s.trace).map TimerEntry.cb : Multiset β) =
      ((fired s.trace).map TimerEntry.cb : Multiset β) +
        (s.loop.timers.items.map TimerEntry.cb) := by
    rw [Multiset.coe_add, ← List.map_append]
    exact Multiset.coe_eq_coe.mpr (table.map _)
  rw [entered, left, immediate, timers]
  exact add_add_add_comm _ _ _ _

/-! ### Inside a pass -/

def Control.remaining : Control → Option Nat
  | .draining remaining _ => some remaining
  | .inImmediate remaining _ => some remaining
  | _ => none

def Control.snapshot : Control → Option Int
  | .scanning now _ => some now
  | .inTimer now _ => some now
  | _ => none

def Event.isPassMark : Event β → Bool
  | .enterRunOnce => true
  | .leaveRunOnce _ => true
  | _ => false

/-- The history ends inside the `RunOnce` that was entered after `before`. -/
def InRunOnce (before trace : List (Event β)) : Prop :=
  ∃ during, trace = before ++ .enterRunOnce :: during ∧
    ∀ event ∈ during, event.isPassMark = false

theorem InRunOnce.snoc {before trace : List (Event β)} {event : Event β}
    (inside : InRunOnce before trace) (plain : event.isPassMark = false) :
    InRunOnce before (trace ++ [event]) := by
  obtain ⟨during, split, marks⟩ := inside
  refine ⟨during ++ [event], by rw [split, List.append_assoc, List.cons_append], ?_⟩
  intro other member
  rcases List.mem_append.mp member with earlier | last
  · exact marks other earlier
  · rw [List.mem_singleton.mp last]
    exact plain

theorem InRunOnce.posted_prefix {before trace : List (Event β)}
    (inside : InRunOnce before trace) : posted before <+: posted trace := by
  obtain ⟨during, split, _⟩ := inside
  rw [split, posted_append]
  exact List.prefix_append _ _

/-- What is left of the batch was posted before the `RunOnce` was entered. -/
def BatchKept (s : System β) : Prop :=
  ∀ remaining, s.control.remaining = some remaining →
    ∃ before, InRunOnce before s.trace ∧
      (drained s.trace).length + remaining ≤ (posted before).length

theorem BatchKept.emit {s : System β} {event : Event β} (kept : BatchKept s)
    (plain : event.isPassMark = false) (silent : drained [event] = []) :
    BatchKept (s.emit event) := by
  intro remaining left
  obtain ⟨before, inside, counted⟩ := kept remaining left
  refine ⟨before, inside.snoc plain, ?_⟩
  unfold System.emit
  rw [drained_append, silent, List.append_nil]
  exact counted

theorem BatchKept.enterRunOnce {s : System β} (queue : QueueKept s) :
    BatchKept s.enterRunOnce := by
  intro remaining left
  cases left
  have counted : (drained s.trace).length + s.loop.immediate.items.length =
      (posted s.trace).length := by
    rw [queue, List.length_append]
  refine ⟨s.trace, ⟨[], rfl, List.forall_mem_nil _⟩, ?_⟩
  simpa [drained] using counted.le

theorem BatchKept.step {s next : System β} (queue : QueueKept s) (kept : BatchKept s)
    (moved : Step s next) : BatchKept next := by
  cases moved with
  | posted cb calling room => exact BatchKept.emit kept rfl rfl
  | armed delay cb calling room => exact BatchKept.emit kept rfl rfl
  | rejected message calling => exact BatchKept.emit kept rfl rfl
  | stopped calling => exact BatchKept.emit kept rfl rfl
  | ticked elapsed => exact kept
  | enteredRunOnce fromDriver => exact BatchKept.enterRunOnce queue
  | iterated atTest running => exact BatchKept.enterRunOnce queue
  | drained remaining ran cb rest inBatch front =>
      intro left same
      cases same
      obtain ⟨before, inside, counted⟩ := kept (remaining + 1) (by rw [inBatch]; rfl)
      have grown : (drained (s.trace ++ [.drained cb])).length = (drained s.trace).length + 1 := by
        rw [drained_append, List.length_append]
        rfl
      refine ⟨before, inside.snoc rfl, ?_⟩
      rw [System.emit, grown]
      omega
  | immediateReturned remaining ran inside =>
      intro left same
      cases same
      exact kept remaining (by rw [inside]; rfl)
  | leftRunOnce now ran inScan noneDue =>
      intro left same
      simp only [System.leaveRunOnce, System.emit] at same
      split at same <;> cases same
  | _ =>
      intro left same
      cases same

def SnapshotKept (s : System β) : Prop :=
  ∀ now, s.control.snapshot = some now → now ≤ s.now

theorem SnapshotKept.step {s next : System β} (kept : SnapshotKept s) (moved : Step s next) :
    SnapshotKept next := by
  cases moved with
  | posted cb calling room => exact kept
  | armed delay cb calling room => exact kept
  | rejected message calling => exact kept
  | stopped calling => exact kept
  | ticked elapsed =>
      intro now taken
      have earlier := kept now taken
      change now ≤ s.now + elapsed
      omega
  | batchDone ran atEnd =>
      intro now taken
      cases taken
      exact Int.le_refl _
  | fired now ran timer inScan found =>
      intro taken same
      cases same
      exact kept now (by rw [inScan]; rfl)
  | timerReturned now ran inside =>
      intro taken same
      cases same
      exact kept now (by rw [inside]; rfl)
  | leftRunOnce now ran inScan noneDue =>
      intro taken same
      simp only [System.leaveRunOnce, System.emit] at same
      split at same <;> cases same
  | _ =>
      intro taken same
      cases same

/-! ### Inside `Run` -/

def Control.isRun : Control → Bool
  | .checking => true
  | .deciding => true
  | .sleeping _ => true
  | _ => false

/-- `running_` is cleared by `Stop` only, as long as `Run` has not returned. -/
structure RunKept (s : System β) : Prop where
  inside : s.control.isRun = true → s.inRun = true
  running : s.inRun = true → stopCalled s.trace = false → s.loop.running = true

theorem RunKept.step {s next : System β} (kept : RunKept s) (moved : Step s next) :
    RunKept next := by
  obtain ⟨inside, running⟩ := kept
  cases moved with
  | stopped calling =>
      exact ⟨inside, by simp [stopCalled]⟩
  | enteredRun fromDriver => exact ⟨fun _ => rfl, fun _ _ => rfl⟩
  | halted atTest notRunning => exact ⟨by simp [Control.isRun], by simp⟩
  | finished afterPass noWork noTimers => exact ⟨by simp [Control.isRun], by simp⟩
  | leftRunOnce now ran inScan noneDue =>
      constructor
      · intro back
        by_cases within : s.inRun = true
        · exact within
        · simp [within, Control.isRun] at back
      · simpa [stopCalled] using running
  | _ =>
      constructor
      · simp_all [Control.isRun]
      · simpa [stopCalled] using running

/-! ### The history, event by event -/

/-- The callback drained is the next one in the order of acceptance, and it was
accepted before the `RunOnce` that invokes it was entered. -/
def DrainsEarlierPost (trace : List (Event β)) : Event β → Prop
  | .drained cb =>
      ∃ before, InRunOnce before trace ∧ (posted before)[(drained trace).length]? = some cb
  | _ => True

/-- A timer fires at or after its acceptance time plus its delay. -/
def FiresOnTime (trace : List (Event β)) : Event β → Prop
  | .fired clock timer _ =>
      ∃ acceptance delay, Event.armed acceptance delay timer.cb ∈ trace ∧
        timer.due = acceptance + delay ∧ acceptance + delay ≤ clock
  | _ => True

/-- `Run` returns unstopped only when everything accepted has been invoked. -/
def ReturnsDone (trace : List (Event β)) : Event β → Prop
  | .leaveRun =>
      stopCalled trace = false → (accepted trace : Multiset β) = (invoked trace : Multiset β)
  | _ => True

/-- The invariant of the event loop. -/
structure Kept (s : System β) : Prop where
  queue : QueueKept s
  table : TableKept s
  batch : BatchKept s
  snapshot : SnapshotKept s
  run : RunKept s
  drains : Each DrainsEarlierPost s.trace
  onTime : Each FiresOnTime s.trace
  done : Each ReturnsDone s.trace

theorem Kept.drains_step {s next : System β} (kept : Kept s) (moved : Step s next) :
    Each DrainsEarlierPost next.trace := by
  cases moved with
  | drained remaining ran cb rest inBatch front =>
      obtain ⟨before, inside, counted⟩ := kept.batch (remaining + 1) (by rw [inBatch]; rfl)
      obtain ⟨later, extended⟩ := inside.posted_prefix
      have next : (posted s.trace)[(drained s.trace).length]? = some cb := by
        rw [kept.queue, front, List.getElem?_append_right (Nat.le_refl _), Nat.sub_self]
        rfl
      refine each_snoc.mpr ⟨kept.drains, before, inside, ?_⟩
      rw [← next, ← extended, List.getElem?_append_left (by omega)]
  | _ =>
      first
        | exact kept.drains
        | exact each_snoc.mpr ⟨kept.drains, trivial⟩

theorem Kept.onTime_step {s next : System β} (kept : Kept s) (moved : Step s next) :
    Each FiresOnTime next.trace := by
  cases moved with
  | fired now ran timer inScan found =>
      obtain ⟨due, front, back, split, _⟩ := find_expired found
      have reading : now ≤ s.now := kept.snapshot now (by rw [inScan]; rfl)
      have tabled : timer ∈ fired s.trace ++ s.loop.timers.items := by
        rw [split]
        simp
      obtain ⟨acceptance, delay, recorded, sum⟩ := mem_armed (kept.table.mem_iff.mpr tabled)
      refine each_snoc.mpr ⟨kept.onTime, acceptance, delay, recorded, sum, ?_⟩
      rw [← sum]
      exact Int.le_trans due reading
  | _ =>
      first
        | exact kept.onTime
        | exact each_snoc.mpr ⟨kept.onTime, trivial⟩

theorem Kept.done_step {s next : System β} (kept : Kept s) (moved : Step s next) :
    Each ReturnsDone next.trace := by
  cases moved with
  | halted atTest notRunning =>
      refine each_snoc.mpr ⟨kept.done, ?_⟩
      intro unstopped
      have within : s.inRun = true := kept.run.inside (by rw [atTest]; rfl)
      have running := kept.run.running within unstopped
      rw [notRunning] at running
      cases running
  | finished afterPass noWork noTimers =>
      refine each_snoc.mpr ⟨kept.done, ?_⟩
      intro unstopped
      have balance := accepted_eq kept.queue kept.table
      have empty : pending s.loop = [] := by
        unfold pending
        rw [noWork, noTimers]
        rfl
      rw [empty] at balance
      rw [balance]
      exact add_zero _
  | _ =>
      first
        | exact kept.done
        | exact each_snoc.mpr ⟨kept.done, trivial⟩

theorem Kept.step {s next : System β} (kept : Kept s) (moved : Step s next) : Kept next :=
  { queue := kept.queue.step moved
    table := kept.table.step moved
    batch := BatchKept.step kept.queue kept.batch moved
    snapshot := kept.snapshot.step moved
    run := kept.run.step moved
    drains := kept.drains_step moved
    onTime := kept.onTime_step moved
    done := kept.done_step moved }

theorem Kept.initial (clock : Int) : Kept (System.initial clock : System β) :=
  { queue := rfl
    table := List.Perm.nil
    batch := by intro remaining left; cases left
    snapshot := by intro now taken; cases taken
    run :=
      { inside := by intro within; cases within
        running := by intro within; cases within }
    drains := each_nil _
    onTime := each_nil _
    done := each_nil _ }

theorem kept_of_run {clock : Int} {actions : List (Action β)} {s : System β}
    (ran : Transition.run step (System.initial clock) actions = some s) : Kept s :=
  holds_of_steps Kept (fun _ _ kept moved => kept.step moved) (Kept.initial clock) actions s ran

/-- A rejected call changes nothing: only the history shows that it was made. -/
theorem Step.rejected_inv {s next : System β} {error : Error} (moved : Step s next)
    (refused : next.trace = s.trace ++ [.rejected error]) :
    next = s.emit (.rejected error) ∧ error.category = category ∧
      error.code = Code.queueFull.value := by
  cases moved with
  | rejected message calling =>
      have same := List.append_cancel_left refused
      cases same
      exact ⟨rfl, rfl, rfl⟩
  | _ => simp at refused

/-- What the loop owes its callers, in the state it has reached. -/
structure Accounted (s : System β) : Prop where
  conserved : (accepted s.trace : Multiset β) = (invoked s.trace : Multiset β) + pending s.loop
  inOrder : posted s.trace = drained s.trace ++ s.loop.immediate.items
  timers : (armed s.trace : Multiset (TimerEntry β)) =
    (fired s.trace : Multiset (TimerEntry β)) + s.loop.timers.items
  rejects : ∀ action next error, step s action = some next →
    next.trace = s.trace ++ [.rejected error] →
      next = s.emit (.rejected error) ∧ error.category = category ∧
        error.code = Code.queueFull.value
  drains : Each DrainsEarlierPost s.trace
  onTime : Each FiresOnTime s.trace
  done : Each ReturnsDone s.trace

/-- Every state that any run reaches accounts for every callback. -/
theorem loop_accounts (clock : Int) (actions : List (Action β)) (s : System β)
    (ran : Transition.run step (System.initial clock) actions = some s) : Accounted s := by
  have kept : Kept s := kept_of_run ran
  exact
    { conserved := accepted_eq kept.queue kept.table
      inOrder := kept.queue
      timers := by
        rw [Multiset.coe_add]
        exact Multiset.coe_eq_coe.mpr kept.table
      rejects := fun _ _ _ stepped refused => (step_inv stepped).rejected_inv refused
      drains := kept.drains
      onTime := kept.onTime
      done := kept.done }

def sampleActions : List (Action Nat) :=
  [.post 1, .postAfter 5 2, .run, .proceed, .proceed, .post 3,
    .proceed, .proceed, .proceed, .proceed, .proceed, .proceed, .proceed, .proceed, .proceed,
    .tick 5,
    .proceed, .proceed, .proceed, .proceed, .proceed, .proceed, .proceed, .proceed]

theorem loop_accounts_sample :
    ∃ s, Transition.run step (System.initial 0) sampleActions = some s ∧
      s.trace.getLast? = some .leaveRun ∧ invoked s.trace = [1, 3, 2] ∧ Accounted s := by
  have reached : (Transition.run step (System.initial 0) sampleActions).any
      (fun s => s.trace.getLast? = some .leaveRun ∧ invoked s.trace = [1, 3, 2]) = true := by
    decide +kernel
  obtain ⟨s, ran, seen⟩ := (Option.any_eq_true _ _).mp reached
  obtain ⟨last, order⟩ := of_decide_eq_true seen
  exact ⟨s, ran, last, order, loop_accounts 0 sampleActions s ran⟩

/-! ### The loop is never stuck -/

theorem proceeds_of_run {clock : Int} {actions : List (Action β)} {s : System β}
    (ran : Transition.run step (System.initial clock) actions = some s)
    (inside : s.control ≠ .driver) : s.proceed.isSome = true := by
  have kept : Kept s := kept_of_run ran
  unfold System.proceed
  split
  · contradiction
  · rfl
  · rename_i remaining taken inBatch
    obtain ⟨before, within, counted⟩ := kept.batch (remaining + 1) (by rw [inBatch]; rfl)
    have shorter := within.posted_prefix.length_le
    rw [kept.queue, List.length_append] at shorter
    split
    · rename_i empty
      rw [empty, List.length_nil] at shorter
      omega
    · rfl
  · rfl
  · split
    · rfl
    · rfl
  · rfl
  · split
    · rfl
    · rfl
  · split
    · split
      · rfl
      · rename_i timersLeft
        obtain ⟨index, timer, found, _⟩ := earliestTimer_spec timersLeft
        split
        · rename_i missing
          rw [missing] at found
          cases found
        · rfl
    · rfl
  · rfl

end Etlx.Events
