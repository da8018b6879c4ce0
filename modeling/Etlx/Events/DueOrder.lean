/-
The order in which the event loop fires its timers.

The timer phase of `RunOnce` fires the first timer of the table that is due, and
the table is in the order the timers were armed. Timers fire in due order
exactly when those that are due at the reading of the clock stand in the table
in due order at every scan.
-/

import Etlx.Events.Conservation

namespace Etlx.Events

open Transition (Each each_nil each_snoc Meets)

variable {β : Type}

/-- When a timer fires, no timer still pending was due strictly earlier. -/
def FiresInDueOrder (_ : List (Event β)) : Event β → Prop
  | .fired _ timer others => ∀ other ∈ others, ¬other.due < timer.due
  | _ => True

def DueSorted (now : Int) (timers : List (TimerEntry β)) : Prop :=
  (timers.filter (expired now)).Pairwise (fun first second => first.due ≤ second.due)

instance (now : Int) (timers : List (TimerEntry β)) : Decidable (DueSorted now timers) :=
  inferInstanceAs (Decidable (List.Pairwise _ _))

/-- A step of the timer phase finds the timers that are due in due order. -/
def ScansSorted (s : System β) (_ : Action β) : Prop :=
  match s.control with
  | .scanning now _ => DueSorted now s.loop.timers.items
  | _ => True

instance (s : System β) (action : Action β) : Decidable (ScansSorted s action) :=
  match scanned : s.control with
  | .scanning now _ =>
      decidable_of_iff (DueSorted now s.loop.timers.items) (by rw [ScansSorted, scanned])
  | .driver | .draining _ _ | .inImmediate _ _ | .inTimer _ _ | .checking | .deciding
  | .sleeping _ => isTrue (by rw [ScansSorted, scanned]; trivial)

/-! ### One firing -/

theorem filter_expired {now : Int} {timers : List (TimerEntry β)} {timer : TimerEntry β}
    (found : timers.find? (expired now) = some timer) :
    timers.filter (expired now) =
      timer :: (timers.eraseP (expired now)).filter (expired now) := by
  obtain ⟨due, front, back, split, erased, skipped⟩ := find_expired found
  have passed : front.filter (expired now) = [] := by
    rw [List.filter_eq_nil_iff]
    intro other member early
    exact absurd (expired_iff.mp early) (Int.not_le.mpr (skipped other member))
  rw [erased, split, List.filter_append, List.filter_append, passed,
    List.filter_cons_of_pos (expired_iff.mpr due)]
  rfl

theorem dueSorted_iff {now : Int} {timers : List (TimerEntry β)} {timer : TimerEntry β}
    (found : timers.find? (expired now) = some timer) :
    DueSorted now timers ↔
      (∀ other ∈ timers.eraseP (expired now), ¬other.due < timer.due) ∧
        DueSorted now (timers.eraseP (expired now)) := by
  have due : timer.due ≤ now := (find_expired found).1
  unfold DueSorted
  rw [filter_expired found, List.pairwise_cons]
  apply and_congr_left
  intro _
  constructor
  · intro later other member early
    have otherDue : expired now other = true :=
      expired_iff.mpr (Int.le_trans (Int.le_of_lt early) due)
    exact Int.not_le.mpr early (later other (List.mem_filter.mpr ⟨member, otherDue⟩))
  · intro none other member
    exact Int.not_lt.mp (none other (List.mem_filter.mp member).1)

/-! ### Whole runs -/

theorem Step.inDueOrder {s next : System β} {action : Action β} (moved : Step s next)
    (sorted : ScansSorted s action) (ordered : Each FiresInDueOrder s.trace) :
    Each FiresInDueOrder next.trace := by
  cases moved with
  | fired now ran timer inScan found =>
      rw [ScansSorted, inScan] at sorted
      exact each_snoc.mpr ⟨ordered, ((dueSorted_iff found).mp sorted).1⟩
  | _ =>
      first
        | exact ordered
        | exact each_snoc.mpr ⟨ordered, trivial⟩

theorem Step.trace_prefix {s next : System β} (moved : Step s next) :
    s.trace <+: next.trace := by
  cases moved with
  | _ =>
      first
        | exact List.prefix_refl _
        | exact List.prefix_append _ _

/-- Out of order already, or bound to be before the timer phase ends. -/
def OutOfOrder (s : System β) : Prop :=
  ¬Each FiresInDueOrder s.trace ∨
    ∃ now, s.control.snapshot = some now ∧ ¬DueSorted now s.loop.timers.items

theorem OutOfOrder.scanning {s next : System β} {now : Int} (moved : Step s next)
    (taken : s.control.snapshot = some now) (unsorted : ¬DueSorted now s.loop.timers.items) :
    OutOfOrder next := by
  cases moved with
  | posted cb calling room => exact Or.inr ⟨now, taken, unsorted⟩
  | rejected message calling => exact Or.inr ⟨now, taken, unsorted⟩
  | stopped calling => exact Or.inr ⟨now, taken, unsorted⟩
  | ticked elapsed => exact Or.inr ⟨now, taken, unsorted⟩
  | armed delay cb calling room =>
      refine Or.inr ⟨now, taken, ?_⟩
      intro sorted
      exact unsorted (sorted.sublist ((List.sublist_append_left _ _).filter _))
  | fired reading ran timer inScan found =>
      rw [inScan] at taken
      cases taken
      by_cases first : ∀ other ∈ s.loop.timers.items.eraseP (expired now),
          ¬other.due < timer.due
      · refine Or.inr ⟨now, rfl, ?_⟩
        intro sorted
        exact unsorted ((dueSorted_iff found).mpr ⟨first, sorted⟩)
      · refine Or.inl ?_
        intro ordered
        exact first (each_snoc.mp ordered).2
  | timerReturned reading ran inside =>
      rw [inside] at taken
      cases taken
      exact Or.inr ⟨now, rfl, unsorted⟩
  | leftRunOnce reading ran inScan noneDue =>
      rw [inScan] at taken
      cases taken
      have empty : s.loop.timers.items.filter (expired now) = [] :=
        List.filter_eq_nil_iff.mpr (List.find?_eq_none.mp noneDue)
      refine absurd ?_ unsorted
      rw [DueSorted, empty]
      exact List.Pairwise.nil
  | enteredRunOnce fromDriver => rw [fromDriver] at taken; cases taken
  | enteredRun fromDriver => rw [fromDriver] at taken; cases taken
  | batchDone ran atEnd => rw [atEnd] at taken; cases taken
  | drained remaining ran cb rest inBatch front => rw [inBatch] at taken; cases taken
  | immediateReturned remaining ran inside => rw [inside] at taken; cases taken
  | iterated atTest running => rw [atTest] at taken; cases taken
  | halted atTest notRunning => rw [atTest] at taken; cases taken
  | finished afterPass noWork noTimers => rw [afterPass] at taken; cases taken
  | slept index timer afterPass noWork earliest => rw [afterPass] at taken; cases taken
  | requeued afterPass work => rw [afterPass] at taken; cases taken
  | woke target asleep => rw [asleep] at taken; cases taken

theorem OutOfOrder.step {s next : System β} (off : OutOfOrder s) (moved : Step s next) :
    OutOfOrder next := by
  rcases off with already | ⟨now, taken, unsorted⟩
  · exact Or.inl (fun ordered => already (ordered.of_prefix moved.trace_prefix))
  · exact OutOfOrder.scanning moved taken unsorted

theorem outOfOrder_of_not_scansSorted {s : System β} {action : Action β}
    (missed : ¬ScansSorted s action) : OutOfOrder s := by
  unfold ScansSorted at missed
  split at missed
  · rename_i now ran scanned
    exact Or.inr ⟨now, by rw [scanned]; rfl, missed⟩
  · exact absurd trivial missed

/-- Timers fire in due order along every run whose scans find them so; and a run
that ends outside a timer phase, with its timers fired in due order, is one. -/
theorem fires_in_due_order_iff (clock : Int) (actions : List (Action β)) (s : System β)
    (ran : Transition.run step (System.initial clock) actions = some s) :
    (Meets step ScansSorted (System.initial clock) actions → Each FiresInDueOrder s.trace) ∧
      (s.control.snapshot = none → Each FiresInDueOrder s.trace →
        Meets step ScansSorted (System.initial clock) actions) := by
  constructor
  · intro sorted
    exact Transition.run_invariant_of_meets (fun state => Each FiresInDueOrder state.trace)
      (fun state action next ordered meets stepped =>
        (step_inv stepped).inDueOrder meets ordered)
      actions _ s (each_nil _) sorted ran
  · intro outside ordered
    apply Transition.meets_of_trap OutOfOrder
      (fun state action missed => outOfOrder_of_not_scansSorted missed)
      (fun state action next off stepped => off.step (step_inv stepped))
      actions _ s ran
    rintro (already | ⟨now, taken, unsorted⟩)
    · exact already ordered
    · rw [outside] at taken
      cases taken

def twoTimers (first second : Int) : List (Action Nat) :=
  [.postAfter first 1, .postAfter second 2, .tick 5, .runOnce,
    .proceed, .proceed, .proceed, .proceed, .proceed, .proceed]

theorem fires_in_due_order_iff_twoTimers :
    ∃ s, Transition.run step (System.initial 0) (twoTimers 1 3) = some s ∧
      fired s.trace = [{ due := 1, cb := 1 }, { due := 3, cb := 2 }] ∧
      Each FiresInDueOrder s.trace := by
  have reached : (Transition.run step (System.initial 0) (twoTimers 1 3)).any
      (fun s => fired s.trace = [{ due := 1, cb := 1 }, { due := 3, cb := 2 }]) = true := by
    decide +kernel
  have sorted : Meets step ScansSorted (System.initial 0) (twoTimers 1 3) := by decide +kernel
  obtain ⟨s, ran, seen⟩ := (Option.any_eq_true _ _).mp reached
  exact ⟨s, ran, of_decide_eq_true seen,
    (fires_in_due_order_iff 0 (twoTimers 1 3) s ran).1 sorted⟩

/-- Of two timers that are due, the later one fires while the earlier is pending. -/
theorem fires_out_of_due_order :
    ∃ s, Transition.run step (System.initial 0) (twoTimers 3 1) = some s ∧
      ¬Each FiresInDueOrder s.trace := by
  have reached : (Transition.run step (System.initial 0) (twoTimers 3 1)).any
      (fun s => s.trace =
        [.armed 0 3 1, .armed 0 1 2, .enterRunOnce] ++
          .fired 5 { due := 3, cb := 1 } [{ due := 1, cb := 2 }] ::
            [.fired 5 { due := 1, cb := 2 } [], .leaveRunOnce 2]) = true := by
    decide +kernel
  obtain ⟨s, ran, seen⟩ := (Option.any_eq_true _ _).mp reached
  refine ⟨s, ran, ?_⟩
  intro ordered
  have first := ordered _ _ _ (of_decide_eq_true seen)
  exact first { due := 1, cb := 2 } List.mem_cons_self (by decide)

end Etlx.Events
