/-
The event loop on the clock of the host.

`MonotonicClock` reads a clock of nanoseconds and cuts it to milliseconds; a sleep reads
it once more and asks the kernel for what is left. The kernel keeps a thread asleep at
least as long as it was asked to, unless a signal ends the sleep. The runs of the loop
on this clock are runs of the loop, and without signals they are runs whose sleeps end
in time.
-/

import Etlx.Events.Deadline

namespace Etlx.Events

open Transition

variable {β : Type}

/-! ### The clock -/

structure Timespec where
  tvSec : Int
  tvNsec : Int
deriving DecidableEq, Repr

def Timespec.ofNanos (nanos : Nat) : Timespec :=
  { tvSec := (nanos / 1000000000 : Nat), tvNsec := (nanos % 1000000000 : Nat) }

def Timespec.nanos (ts : Timespec) : Int := ts.tvSec * 1000000000 + ts.tvNsec

structure Timespec.Valid (ts : Timespec) : Prop where
  sec : 0 ≤ ts.tvSec
  nsec : 0 ≤ ts.tvNsec ∧ ts.tvNsec < 1000000000

namespace MonotonicClock

def now (ts : Timespec) : Int := ts.tvSec * 1000 + ts.tvNsec.tdiv 1000000

/-- The request that `SleepUntil` makes, once it has read the clock before the deadline. -/
def request (t now : Int) : Timespec :=
  let deltaMs := t - now
  { tvSec := deltaMs.tdiv 1000, tvNsec := deltaMs.tmod 1000 * 1000000 }

theorem now_ofNanos (nanos : Nat) : now (.ofNanos nanos) = ((nanos / 1000000 : Nat) : Int) := by
  unfold now Timespec.ofNanos
  dsimp only
  rw [Int.tdiv_eq_ediv_of_nonneg (Int.natCast_nonneg _)]
  omega

theorem request_valid {t now : Int} (before : now < t) : (request t now).Valid := by
  unfold request
  dsimp only
  constructor
  · dsimp only
    rw [Int.tdiv_eq_ediv_of_nonneg (by omega)]
    omega
  · dsimp only
    rw [Int.tmod_eq_emod_of_nonneg (by omega)]
    omega

theorem request_nanos {t now : Int} (before : now < t) :
    (request t now).nanos = (t - now) * 1000000 := by
  unfold request Timespec.nanos
  dsimp only
  rw [Int.tdiv_eq_ediv_of_nonneg (by omega), Int.tmod_eq_emod_of_nonneg (by omega)]
  omega

end MonotonicClock

theorem proceed_now {s next : System β} (proceeded : s.proceed = some next) :
    next.now = s.now := by
  unfold System.proceed at proceeded
  split at proceeded
  · cases proceeded
  · cases proceeded
    rfl
  · split at proceeded
    · cases proceeded
    · cases proceeded
      rfl
  · cases proceeded
    rfl
  · split at proceeded
    · cases proceeded
      rfl
    · cases proceeded
      rfl
  · cases proceeded
    rfl
  · split at proceeded
    · cases proceeded
      rfl
    · cases proceeded
      rfl
  · split at proceeded
    · split at proceeded
      · cases proceeded
        rfl
      · split at proceeded
        · cases proceeded
        · cases proceeded
          rfl
    · cases proceeded
      rfl
  · cases proceeded
    rfl

theorem step_now {s next : System β} {action : Action β} (stepped : step s action = some next)
    (noTick : ∀ elapsed, action ≠ .tick elapsed) : next.now = s.now := by
  cases action with
  | tick elapsed => exact absurd rfl (noTick elapsed)
  | proceed => exact proceed_now stepped
  | post cb =>
      obtain ⟨-, same⟩ := Option.ite_none_right_eq_some.mp stepped
      cases same
      unfold System.post
      split <;> rfl
  | postAfter delay cb =>
      obtain ⟨-, same⟩ := Option.ite_none_right_eq_some.mp stepped
      cases same
      unfold System.postAfter
      split <;> rfl
  | stop =>
      obtain ⟨-, same⟩ := Option.ite_none_right_eq_some.mp stepped
      cases same
      rfl
  | runOnce =>
      obtain ⟨-, same⟩ := Option.ite_none_right_eq_some.mp stepped
      cases same
      rfl
  | run =>
      obtain ⟨-, same⟩ := Option.ite_none_right_eq_some.mp stepped
      cases same
      rfl

/-! ### The loop on the clock -/

/-- Where the thread is in `SleepUntil`. The nanoseconds at its reading of the clock are kept. -/
inductive Nap
  | outside
  | measured (readAt : Nat) (now : Int)
  | napping (readAt start : Nat) (request : Timespec)
deriving DecidableEq, Repr

/-- The loop, the clock of the kernel, and the sleep. The time of the loop is what `Now` returns. -/
structure Host (β : Type) where
  system : System β
  nanos : Nat
  nap : Nap
deriving DecidableEq

inductive HostAction (β : Type)
  | act (action : Action β)
  | elapse (nanos : Nat)
  | read
  | nanosleep
  | wake (interrupted : Bool)
deriving DecidableEq

namespace Host

def initial (nanos : Nat) : Host β :=
  { system := System.initial (MonotonicClock.now (.ofNanos nanos))
    nanos := nanos
    nap := .outside }

def acts (host : Host β) : Action β → Bool
  | .tick _ => false
  | .proceed =>
      match host.system.control with
      | .sleeping _ => false
      | _ => true
  | _ => true

def returns (host : Host β) : Option (Host β) :=
  host.system.proceed.map fun system => { host with system := system, nap := .outside }

def step (host : Host β) : HostAction β → Option (Host β)
  | .act action =>
      if host.acts action then
        (Events.step host.system action).map fun system => { host with system := system }
      else none
  | .elapse nanos =>
      some { host with
        system := { host.system with
          now := MonotonicClock.now (.ofNanos (host.nanos + nanos)) }
        nanos := host.nanos + nanos }
  | .read =>
      match host.system.control, host.nap with
      | .sleeping target, .outside =>
          let now := MonotonicClock.now (.ofNanos host.nanos)
          if now < target then some { host with nap := .measured host.nanos now }
          else host.returns
      | _, _ => none
  | .nanosleep =>
      match host.system.control, host.nap with
      | .sleeping target, .measured readAt now =>
          some { host with nap := .napping readAt host.nanos (MonotonicClock.request target now) }
      | _, _ => none
  | .wake interrupted =>
      match host.nap with
      | .napping _ start request =>
          if interrupted = true ∨ start + request.nanos ≤ host.nanos then host.returns else none
      | _ => none

/-- A sleep is under way only while the loop sleeps, and the request in it was made for the rest
of the time from the reading of the clock. -/
def NapSound (host : Host β) : Nap → Prop
  | .outside => True
  | .measured readAt now => ∃ target, host.system.control = .sleeping target ∧
      now = MonotonicClock.now (.ofNanos readAt) ∧ readAt ≤ host.nanos ∧ now < target
  | .napping readAt start request => ∃ target now, host.system.control = .sleeping target ∧
      now = MonotonicClock.now (.ofNanos readAt) ∧ readAt ≤ start ∧ start ≤ host.nanos ∧
      now < target ∧ request = MonotonicClock.request target now

structure Sound (host : Host β) : Prop where
  reads : host.system.now = MonotonicClock.now (.ofNanos host.nanos)
  nap : host.NapSound host.nap

theorem reached_of_slept {readAt start nanos : Nat} {target now : Int}
    (read : now = MonotonicClock.now (.ofNanos readAt)) (before : readAt ≤ start)
    (early : now < target)
    (slept : start + (MonotonicClock.request target now).nanos ≤ nanos) :
    target ≤ MonotonicClock.now (.ofNanos nanos) := by
  rw [MonotonicClock.request_nanos early] at slept
  rw [MonotonicClock.now_ofNanos] at read ⊢
  omega

theorem returns_run {host next : Host β} (sound : host.Sound) {target : Int}
    (asleep : host.system.control = .sleeping target) (returned : host.returns = some next) :
    next.Sound ∧ run Events.step host.system [.proceed] = some next.system ∧
      (target ≤ host.system.now → Meets Events.step WakesInTime host.system [.proceed]) := by
  have proceeds : host.system.proceed = some { host.system with control := .checking } := by
    rw [System.proceed, asleep]
  rw [returns, proceeds] at returned
  cases returned
  refine ⟨⟨sound.reads, trivial⟩, ?_, ?_⟩
  · rw [run, Events.step, proceeds]
    rfl
  · intro reached
    refine (meets_cons proceeds).mpr ⟨?_, trivial⟩
    intro _ other same
    rw [asleep] at same
    cases same
    exact reached

theorem act_awake {host next : Host β} {action : Action β}
    (stepped : host.step (.act action) = some next) (target : Int) :
    host.system.control ≠ .sleeping target := by
  intro asleep
  obtain ⟨allowed, moved⟩ := Option.ite_none_right_eq_some.mp stepped
  obtain ⟨system, moved, -⟩ := Option.map_eq_some_iff.mp moved
  have alone : host.system.control.calling = false := by rw [asleep]; rfl
  rcases step_of_not_calling alone moved with ⟨rfl, -⟩ | ⟨-, elapsed, -⟩
  · rw [acts, asleep] at allowed
    cases allowed
  · cases action with
    | tick elapsed => cases allowed
    | proceed =>
        rw [acts, asleep] at allowed
        cases allowed
    | post cb => rw [Events.step, alone] at moved; cases moved
    | postAfter delay cb => rw [Events.step, alone] at moved; cases moved
    | stop => rw [Events.step, alone] at moved; cases moved
    | runOnce => rw [Events.step, asleep] at moved; cases moved
    | run => rw [Events.step, asleep] at moved; cases moved

theorem act_run {host next : Host β} (sound : host.Sound) {action : Action β}
    (stepped : host.step (.act action) = some next) :
    next.Sound ∧ run Events.step host.system [action] = some next.system ∧
      Meets Events.step WakesInTime host.system [action] := by
  have awake := act_awake stepped
  obtain ⟨allowed, mapped⟩ := Option.ite_none_right_eq_some.mp stepped
  obtain ⟨system, moved, rfl⟩ := Option.map_eq_some_iff.mp mapped
  have outside : host.nap = .outside := by
    have nap := sound.nap
    cases where' : host.nap with
    | outside => rfl
    | measured readAt now =>
        rw [where'] at nap
        obtain ⟨target, asleep, -⟩ := nap
        exact absurd asleep (awake target)
    | napping readAt start request =>
        rw [where'] at nap
        obtain ⟨target, -, asleep, -⟩ := nap
        exact absurd asleep (awake target)
  have noTick : ∀ elapsed, action ≠ .tick elapsed := by
    rintro elapsed rfl
    cases allowed
  refine ⟨⟨(step_now moved noTick).trans sound.reads, ?_⟩, ?_, ?_⟩
  · dsimp only
    rw [outside]
    exact trivial
  · rw [run, moved]
    rfl
  · exact (meets_cons moved).mpr
      ⟨fun _ target asleep => absurd asleep (awake target), trivial⟩

theorem step_run {host next : Host β} (sound : host.Sound) {action : HostAction β}
    (stepped : host.step action = some next) :
    next.Sound ∧ ∃ above, run Events.step host.system above = some next.system ∧
      (action ≠ .wake true → Meets Events.step WakesInTime host.system above) := by
  cases action with
  | act action =>
      obtain ⟨kept, ran, meets⟩ := act_run sound stepped
      exact ⟨kept, [action], ran, fun _ => meets⟩
  | elapse nanos =>
      cases stepped
      have passed : System.now host.system + ((host.nanos + nanos) / 1000000 -
          host.nanos / 1000000 : Nat) = MonotonicClock.now (.ofNanos (host.nanos + nanos)) := by
        rw [sound.reads, MonotonicClock.now_ofNanos, MonotonicClock.now_ofNanos]
        omega
      refine ⟨⟨rfl, ?_⟩, [.tick ((host.nanos + nanos) / 1000000 - host.nanos / 1000000)], ?_, ?_⟩
      · have nap := sound.nap
        dsimp only at nap ⊢
        cases where' : host.nap with
        | outside => exact trivial
        | measured readAt now =>
            rw [where'] at nap
            obtain ⟨target, asleep, read, before, early⟩ := nap
            exact ⟨target, asleep, read, Nat.le_trans before (Nat.le_add_right _ _), early⟩
        | napping readAt start request =>
            rw [where'] at nap
            obtain ⟨target, now, asleep, read, before, since, early, asked⟩ := nap
            exact ⟨target, now, asleep, read, before,
              Nat.le_trans since (Nat.le_add_right _ _), early, asked⟩
      · rw [run, Events.step, passed]
        rfl
      · intro _
        refine ⟨?_, trivial⟩
        intro impossible
        cases impossible
  | read =>
      cases asleep : host.system.control with
      | sleeping target =>
          cases where' : host.nap with
          | outside =>
              rw [step, asleep, where'] at stepped
              dsimp only at stepped
              by_cases early : MonotonicClock.now (.ofNanos host.nanos) < target
              · rw [if_pos early] at stepped
                cases stepped
                exact ⟨⟨sound.reads, target, asleep, rfl, Nat.le_refl _, early⟩,
                  [], rfl, fun _ => trivial⟩
              · rw [if_neg early] at stepped
                obtain ⟨kept, ran, meets⟩ := returns_run sound asleep stepped
                have reached : target ≤ host.system.now := by
                  rw [sound.reads]
                  exact Int.not_lt.mp early
                exact ⟨kept, [.proceed], ran, fun _ => meets reached⟩
          | measured readAt now =>
              rw [step, asleep, where'] at stepped
              cases stepped
          | napping readAt start request =>
              rw [step, asleep, where'] at stepped
              cases stepped
      | _ =>
          rw [step, asleep] at stepped
          cases stepped
  | nanosleep =>
      have nap := sound.nap
      cases asleep : host.system.control with
      | sleeping target =>
          cases where' : host.nap with
          | measured readAt now =>
              rw [where'] at nap
              obtain ⟨other, same, read, before, early⟩ := nap
              rw [asleep] at same
              cases same
              rw [step, asleep, where'] at stepped
              cases stepped
              exact ⟨⟨sound.reads, target, now, asleep, read, before, Nat.le_refl _,
                early, rfl⟩, [], rfl, fun _ => trivial⟩
          | outside =>
              rw [step, asleep, where'] at stepped
              cases stepped
          | napping readAt start request =>
              rw [step, asleep, where'] at stepped
              cases stepped
      | _ =>
          rw [step, asleep] at stepped
          cases stepped
  | wake interrupted =>
      have nap := sound.nap
      cases where' : host.nap with
      | napping readAt start request =>
          rw [where'] at nap
          obtain ⟨target, now, asleep, read, before, since, early, rfl⟩ := nap
          rw [step, where'] at stepped
          dsimp only at stepped
          obtain ⟨ended, returned⟩ := Option.ite_none_right_eq_some.mp stepped
          obtain ⟨kept, ran, meets⟩ := returns_run sound asleep returned
          refine ⟨kept, [.proceed], ran, ?_⟩
          intro noSignal
          have slept := ended.resolve_left (fun cut => noSignal (by rw [cut]))
          rw [sound.reads] at meets
          have whole : start + (MonotonicClock.request target now).nanos ≤ (host.nanos : Int) :=
            slept
          exact meets (reached_of_slept read before early whole)
      | outside =>
          rw [step, where'] at stepped
          cases stepped
      | measured readAt now =>
          rw [step, where'] at stepped
          cases stepped

end Host

/-- What is asked of `nanosleep` is well formed and, counted from the reading of the clock that
`SleepUntil` made, ends when the loop can read its deadline, and within the millisecond of it. -/
structure AsksEnough (host : Host β) (readAt start : Nat) (request : Timespec) : Prop where
  valid : request.Valid
  since : readAt ≤ start
  deadline : ∃ target, host.system.control = .sleeping target ∧
    target * 1000000 ≤ readAt + request.nanos ∧ readAt + request.nanos < (target + 1) * 1000000

theorem Host.Sound.asksEnough {host : Host β} (sound : host.Sound) {readAt start : Nat}
    {request : Timespec} (napping : host.nap = .napping readAt start request) :
    AsksEnough host readAt start request := by
  have nap := sound.nap
  rw [napping] at nap
  obtain ⟨target, now, asleep, read, before, -, early, rfl⟩ := nap
  rw [MonotonicClock.now_ofNanos] at read
  refine ⟨MonotonicClock.request_valid early, before, target, asleep, ?_, ?_⟩
  · rw [MonotonicClock.request_nanos early]
    omega
  · rw [MonotonicClock.request_nanos early]
    omega

/-- A run of the loop on the host is a run of the loop. If no signal cuts a sleep short, every
sleep of it ends in time, so no pass inside `Run` but its first ends without a callback. -/
theorem host_run_in_time (nanos : Nat) (actions : List (HostAction β)) (host : Host β)
    (ran : run Host.step (Host.initial nanos) actions = some host) :
    (∃ above, run step (System.initial ((nanos / 1000000 : Nat) : Int)) above = some host.system ∧
      ((∀ action ∈ actions, action ≠ .wake true) →
        Meets step WakesInTime (System.initial ((nanos / 1000000 : Nat) : Int)) above)) ∧
    (∀ readAt start request, host.nap = .napping readAt start request →
      AsksEnough host readAt start request) ∧
    ((∀ action ∈ actions, action ≠ .wake true) → Each WorksEachPass host.system.trace) := by
  have started : Host.Sound (Host.initial nanos : Host β) := ⟨rfl, trivial⟩
  obtain ⟨sound, above, reached, inTime⟩ := Transition.run_simulates Host.system Host.Sound
    (fun action => action ≠ .wake true) WakesInTime
    (fun _ _ _ sound stepped => Host.step_run sound stepped) actions _ host started ran
  have opened : (Host.initial nanos : Host β).system =
      System.initial ((nanos / 1000000 : Nat) : Int) := by
    rw [Host.initial, MonotonicClock.now_ofNanos]
  rw [opened] at reached inTime
  refine ⟨⟨above, reached, inTime⟩, fun _ _ _ napping => sound.asksEnough napping, ?_⟩
  intro noSignal
  exact (Transition.run_invariant_of_meets CyclesKept
    (fun _ _ _ kept meets stepped => kept.step meets stepped)
    above _ host.system (CyclesKept.initial _) (inTime noSignal) reached).works

/-- The loop reads its clock in the middle of a millisecond and sleeps for three more. -/
def oneNap : List (HostAction Nat) :=
  [.act (.postAfter 5 1), .act (.postAfter 3 2), .act .run] ++ List.replicate 4 (.act .proceed) ++
    [.elapse 500000, .read, .nanosleep, .elapse 3000000, .wake false] ++
      List.replicate 3 (.act .proceed)

theorem host_run_in_time_oneNap :
    ∃ host, run Host.step (Host.initial 0) oneNap = some host ∧
      host.system.trace.getLast? = some (.fired 3 { due := 3, cb := 2 } [{ due := 5, cb := 1 }]) ∧
      Each WorksEachPass host.system.trace := by
  have reached : (run Host.step (Host.initial 0) oneNap).any (fun host =>
      host.system.trace.getLast? = some (.fired 3 { due := 3, cb := 2 } [{ due := 5, cb := 1 }])) =
        true := by
    decide +kernel
  obtain ⟨host, ran, seen⟩ := (Option.any_eq_true _ _).mp reached
  exact ⟨host, ran, of_decide_eq_true seen,
    (host_run_in_time 0 oneNap host ran).2.2 (by decide)⟩

end Etlx.Events
