/-
What the calls on one descriptor come to.

Whatever the socket does, nothing is read or copied past the end of a buffer, and an answer
that is returned is the one to the command of the same call. A `recv` that fails closes the
descriptor and so ends the session; only the length of an answer to `GetATRFD` can bring the
two sides out of step.
-/

import Etlx.Se.SmComSocket
import Mathlib.Data.List.GetD

namespace Etlx.Se.SmComSocket

open Duplex (piece piece_le piece_pos)
open Framing (Format)

/-! ### Frames -/

theorem rest_append {front : Bytes} (headed : 4 ≤ front.length) (back : Bytes) :
    rjctFrame.rest (front ++ back) = rjctFrame.rest front := by
  change ((front ++ back).getD 2 0).toNat * 256 + ((front ++ back).getD 3 0).toNat =
    (front.getD 2 0).toNat * 256 + (front.getD 3 0).toNat
  rw [List.getD_append _ _ _ _ (by omega), List.getD_append _ _ _ _ (by omega)]

theorem size_eq {front : Bytes} (headed : 4 ≤ front.length) :
    rjctFrame.size front = 4 + rjctFrame.rest front := by
  have whole : front.take 4 ++ front.drop 4 = front := List.take_append_drop 4 front
  have header : 4 ≤ (front.take 4).length := by
    rw [List.length_take]
    omega
  have rest := rest_append header (front.drop 4)
  rw [whole] at rest
  rw [rest]
  rfl

theorem apduFrame_whole {data : Bytes} (fits : data.length < 65536) :
    rjctFrame.Whole (apduFrame data) := by
  change (apduFrame data).length = 4 + ((UInt8.ofNat (data.length / 256)).toNat * 256 +
    (UInt8.ofNat (data.length % 256)).toNat)
  rw [UInt8.toNat_ofNat', UInt8.toNat_ofNat', apduFrame, List.length_append]
  change 4 + data.length = _
  omega

variable (config : Config)

theorem Command.frame_whole {command : Command} (fits : command.oversized config = none) :
    rjctFrame.Whole (command.frame config) := by
  have small := config.lengthFits
  cases command with
  | getAtr atrLen =>
      change 8 = 4 + ((0 : UInt8).toNat * 256 + (4 : UInt8).toNat)
      decide
  | close =>
      change 4 = 4 + ((0 : UInt8).toNat * 256 + (0 : UInt8).toNat)
      decide
  | transceive pApdu held =>
      rw [oversized] at fits
      have within : pApdu.buflen ≤ config.maxBufSize - 4 := by
        by_contra larger
        rw [if_neg larger] at fits
        cases fits
      apply apduFrame_whole
      rw [List.length_take]
      omega
  | transceiveRaw pTx pRxLen =>
      rw [oversized] at fits
      have within : pTx.length ≤ config.maxBufSize - 4 := by
        by_contra larger
        rw [if_neg larger] at fits
        cases fits
      apply apduFrame_whole
      omega

/-! ### The loop that reads a frame -/

/-- The length is taken from the header as soon as it is there, and only once. -/
structure Loop.Sound (loop : Loop) : Prop where
  received : loop.lengthReceived = decide (4 ≤ loop.pRsp.length)
  expected : loop.expectedLength =
    if 4 ≤ loop.pRsp.length then rjctFrame.size loop.pRsp else 4

theorem Loop.sound_start : Loop.start.Sound := ⟨rfl, rfl⟩

theorem Loop.read_pRsp (loop : Loop) (bytes : Bytes) :
    (loop.read bytes).pRsp = loop.pRsp ++ bytes := by
  unfold Loop.read
  dsimp only
  split
  · rfl
  · rfl

theorem Loop.Sound.read {loop : Loop} (sound : loop.Sound) (bytes : Bytes) :
    (loop.read bytes).Sound := by
  have longer : (loop.pRsp ++ bytes).length = loop.pRsp.length + bytes.length :=
    List.length_append
  by_cases headed : 4 ≤ (loop.pRsp ++ bytes).length
  · by_cases before : 4 ≤ loop.pRsp.length
    · have done : loop.lengthReceived = true := sound.received.trans (decide_eq_true before)
      have same : loop.read bytes = { loop with pRsp := loop.pRsp ++ bytes } := by
        unfold Loop.read
        dsimp only
        rw [if_neg (by rw [done]; exact fun both => nomatch both.2)]
      rw [same]
      constructor
      · exact done.trans (decide_eq_true headed).symm
      · dsimp only
        rw [sound.expected, if_pos before, if_pos headed,
          rjctFrame.size_append loop.pRsp before bytes]
    · have missing : loop.lengthReceived = false := sound.received.trans (decide_eq_false before)
      unfold Loop.read
      dsimp only
      rw [if_pos ⟨headed, missing⟩]
      constructor
      · exact (decide_eq_true headed).symm
      · dsimp only
        rw [sound.expected, if_neg before, if_pos headed, size_eq headed]
  · have before : ¬4 ≤ loop.pRsp.length := by omega
    unfold Loop.read
    dsimp only
    rw [if_neg (fun both => headed both.1)]
    constructor
    · dsimp only
      rw [sound.received, decide_eq_false before, decide_eq_false headed]
    · dsimp only
      rw [sound.expected, if_neg before, if_neg headed]

theorem Loop.Sound.expects {loop : Loop} (sound : loop.Sound) {frame left : Bytes}
    (whole : rjctFrame.Whole frame) (reading : loop.pRsp ++ left = frame) :
    loop.expectedLength = if 4 ≤ loop.pRsp.length then frame.length else 4 := by
  rw [sound.expected]
  by_cases headed : 4 ≤ loop.pRsp.length
  · rw [if_pos headed, if_pos headed, whole, ← reading,
      rjctFrame.size_append loop.pRsp headed left]
  · rw [if_neg headed, if_neg headed]

theorem Loop.Sound.complete {loop : Loop} (sound : loop.Sound) {frame left : Bytes}
    (whole : rjctFrame.Whole frame) (reading : loop.pRsp ++ left = frame)
    (done : ¬loop.pRsp.length < loop.expectedLength) : loop.pRsp = frame ∧ left = [] := by
  have expected := sound.expects whole reading
  have length : frame.length = loop.pRsp.length + left.length := by
    rw [← reading, List.length_append]
  have nothing : left.length = 0 := by
    split at expected
    · omega
    · omega
  have empty := List.length_eq_zero_iff.mp nothing
  rw [empty, List.append_nil] at reading
  exact ⟨reading, empty⟩

theorem Command.maxCommLength_le {command : Command} {loop : Loop} {maxCommLength : Nat}
    (asked : command.maxCommLength config loop = some maxCommLength) :
    maxCommLength ≤ config.maxBufSize - loop.pRsp.length := by
  cases command with
  | getAtr atrLen =>
      rw [Command.maxCommLength] at asked
      split at asked
      · cases asked
      · next fits =>
          cases asked
          exact Nat.not_lt.mp fits
  | close =>
      rw [Command.maxCommLength] at asked
      generalize (if loop.lengthReceived = false then 4 - loop.pRsp.length
        else loop.expectedLength - loop.pRsp.length) = wanted at asked
      split at asked
      · cases asked
      · next fits =>
          cases asked
          exact Nat.not_lt.mp fits
  | transceive pApdu held =>
      cases asked
      exact Nat.le_refl _
  | transceiveRaw pTx pRxLen =>
      cases asked
      exact Nat.le_refl _

theorem Command.maxCommLength_start (command : Command) :
    ∃ maxCommLength, command.maxCommLength config Loop.start = some maxCommLength ∧
      0 < maxCommLength := by
  have roomy := config.roomy
  have enough : ¬config.maxBufSize - 0 < 4 := by omega
  cases command with
  | getAtr atrLen => exact ⟨4, if_neg enough, by decide⟩
  | close => exact ⟨4, if_neg enough, by decide⟩
  | transceive pApdu held => exact ⟨config.maxBufSize - 0, rfl, by omega⟩
  | transceiveRaw pTx pRxLen => exact ⟨config.maxBufSize - 0, rfl, by omega⟩

/-- `GetATRFD` gives up on an answer that takes more than half of `pRsp`. -/
theorem Command.getAtr_overlong {loop : Loop} (sound : loop.Sound) {frame left : Bytes}
    (whole : rjctFrame.Whole frame) (reading : loop.pRsp ++ left = frame)
    (more : loop.pRsp.length < loop.expectedLength) {atrLen : Nat}
    (stopped : (Command.getAtr atrLen).maxCommLength config loop = none) :
    config.maxBufSize + 1 < 2 * frame.length := by
  have roomy := config.roomy
  have expected := sound.expects whole reading
  have beyond : config.maxBufSize - loop.pRsp.length < loop.expectedLength := by
    by_contra within
    rw [Command.maxCommLength, if_neg within] at stopped
    cases stopped
  split at expected
  · omega
  · omega

/-! ### Sessions -/

/-- How the two sides stand: in step, with the descriptor closed, or with bytes on the way that
belong to no call. -/
inductive Standing (τ : Type)
  | inStep (terminal : τ)
  | dead
  | lost

section

variable {τ : Type} (handle : τ → Bytes → Bytes × τ)

/-- What the calls of a session can come to. Every answer is that of the terminal to the command
of the same call, after the commands that were answered before. -/
inductive Exchanged (start : τ) : List (Command × Reply) → Standing τ → Prop
  | opened : Exchanged start [] (.inStep start)
  | oversized {log : List (Command × Reply)} {standing : Standing τ} {command : Command}
      {reply : Reply} (told : Exchanged start log standing)
      (refused : command.oversized config = some reply) :
      Exchanged start (log ++ [(command, reply)]) standing
  | unsent {log : List (Command × Reply)} {standing : Standing τ} {command : Command}
      (told : Exchanged start log standing) :
      Exchanged start (log ++ [(command, command.unsent)]) standing
  | answered {log : List (Command × Reply)} {terminal : τ} {command : Command}
      (told : Exchanged start log (.inStep terminal)) (fits : command.oversized config = none)
      (stays : command ≠ .close) :
      Exchanged start
        (log ++ [(command, command.received config (handle terminal (command.frame config)).1)])
        (.inStep (handle terminal (command.frame config)).2)
  | closed {log : List (Command × Reply)} {terminal : τ}
      (told : Exchanged start log (.inStep terminal)) :
      Exchanged start (log ++ [(.close, .closed none)]) .dead
  | broken {log : List (Command × Reply)} {terminal : τ} {command : Command}
      (told : Exchanged start log (.inStep terminal)) :
      Exchanged start (log ++ [(command, command.broken)]) .dead
  | overlong {log : List (Command × Reply)} {terminal : τ} {atrLen : Nat}
      (told : Exchanged start log (.inStep terminal))
      (long : config.maxBufSize + 1 <
        2 * (handle terminal ((Command.getAtr atrLen).frame config)).1.length) :
      Exchanged start (log ++ [(.getAtr atrLen, .atr 0 (some []))]) .lost
  | lost {log later : List (Command × Reply)} (told : Exchanged start log .lost) :
      Exchanged start (log ++ later) .lost

namespace World

def Clear (world : World τ) (terminal : τ) : Prop :=
  world.pending = [] ∧ world.incoming = [] ∧ world.terminal = terminal

/-- The terminal has the command, and its answer is read or on the way; or it has a part of the
command only, and nothing comes. -/
def Awaits (world : World τ) (command : Command) (loop : Loop) (terminal : τ) : Prop :=
  (world.pending = [] ∧ world.terminal = (handle terminal (command.frame config)).2 ∧
    loop.pRsp ++ world.incoming = (handle terminal (command.frame config)).1) ∨
  (loop.pRsp = [] ∧ world.incoming = [])

def Linked (world : World τ) : Standing τ → Prop
  | .inStep terminal =>
      world.isOpen = true ∧
        match world.phase with
        | .idle => world.Clear terminal
        | .sending command => world.Clear terminal ∧ command.oversized config = none
        | .receiving command loop =>
            command.oversized config = none ∧ loop.Sound ∧
              loop.pRsp.length < loop.expectedLength ∧
              world.Awaits config handle command loop terminal
  | .dead => world.isOpen = false ∧ ∀ command loop, world.phase ≠ .receiving command loop
  | .lost => True

def Told (start : τ) (world : World τ) : Prop :=
  ∃ standing, Exchanged config handle start world.log standing ∧
    world.Linked config handle standing

theorem proceeds_start (world : World τ) (command : Command) :
    world.proceeds config command .start = { world with phase := .receiving command .start } := by
  have more : Loop.start.pRsp.length < Loop.start.expectedLength := by decide
  obtain ⟨maxCommLength, asked, -⟩ := command.maxCommLength_start config
  unfold proceeds
  rw [if_pos more, asked]

theorem delivers_whole {world : World τ} (clear : world.pending = []) {frame : Bytes}
    (whole : rjctFrame.Whole frame) :
    world.delivers handle frame = { world.handles handle frame with pending := [] } := by
  rw [delivers, clear, List.nil_append, rjctFrame.split_whole whole]
  rfl

theorem delivers_part {world : World τ} (clear : world.pending = []) {frame part : Bytes}
    (whole : rjctFrame.Whole frame) (begins : part <+: frame)
    (shorter : part.length < frame.length) :
    world.delivers handle part = { world with pending := part } := by
  rw [delivers, clear, List.nil_append, rjctFrame.split_short (whole.short begins shorter)]
  rfl

variable {config handle} {start : τ}

theorem Told.reading (whole : ∀ terminal frame, rjctFrame.Whole (handle terminal frame).1)
    {world : World τ} (terminal : τ)
    (told : Exchanged config handle start world.log (.inStep terminal))
    (isOpen : world.isOpen = true) (clear : world.pending = []) {command : Command}
    (handled : world.terminal = (handle terminal (command.frame config)).2)
    (fits : command.oversized config = none) {loop : Loop} (sound : loop.Sound)
    (reading : loop.pRsp ++ world.incoming = (handle terminal (command.frame config)).1) :
    Told config handle start (world.proceeds config command loop) := by
  have answer := whole terminal (command.frame config)
  unfold proceeds
  by_cases more : loop.pRsp.length < loop.expectedLength
  · rw [if_pos more]
    cases asked : command.maxCommLength config loop with
    | some maxCommLength =>
        exact ⟨.inStep terminal, told, isOpen, fits, sound, more, .inl ⟨clear, handled, reading⟩⟩
    | none =>
        cases command with
        | getAtr atrLen =>
            have long := Command.getAtr_overlong config sound answer reading more asked
            exact ⟨.lost, told.overlong long, trivial⟩
        | close => exact ⟨.dead, told.broken, rfl, fun _ _ => nofun⟩
        | transceive pApdu held => exact ⟨.dead, told.broken, rfl, fun _ _ => nofun⟩
        | transceiveRaw pTx pRxLen => exact ⟨.dead, told.broken, rfl, fun _ _ => nofun⟩
  · rw [if_neg more]
    obtain ⟨all, nothing⟩ := sound.complete answer reading more
    by_cases closing : command = .close
    · rw [if_pos closing, closing]
      exact ⟨.dead, told.closed, rfl, fun _ _ => nofun⟩
    · rw [if_neg closing, all]
      exact ⟨.inStep _, told.answered fits closing, isOpen, clear, nothing, handled⟩

/-! ### One step -/

def Grows (world next : World τ) : Prop := ∃ later, next.log = world.log ++ later

theorem Told.lost {world next : World τ} (told : Exchanged config handle start world.log .lost)
    (grows : world.Grows next) : Told config handle start next := by
  obtain ⟨later, log⟩ := grows
  refine ⟨.lost, ?_, trivial⟩
  rw [log]
  exact told.lost

theorem Grows.proceeds {world next : World τ} (grows : world.Grows next) (command : Command)
    (loop : Loop) : world.Grows (next.proceeds config command loop) := by
  obtain ⟨later, log⟩ := grows
  have longer (reply : Reply) :
      next.log ++ [(command, reply)] = world.log ++ (later ++ [(command, reply)]) := by
    rw [log, List.append_assoc]
  unfold World.proceeds
  split
  · split
    · exact ⟨_, longer _⟩
    · exact ⟨_, longer _⟩
    · exact ⟨later, log⟩
  · split
    · exact ⟨_, longer _⟩
    · exact ⟨_, longer _⟩

theorem delivers_log (world : World τ) (bytes : Bytes) :
    (world.delivers handle bytes).log = world.log := by
  have kept (frames : List Bytes) (world : World τ) :
      (frames.foldl (handles handle) world).log = world.log := by
    induction frames generalizing world with
    | nil => rfl
    | cons frame frames ih => exact ih _
  exact kept _ world

theorem Grows.delivers (world : World τ) (bytes : Bytes) :
    world.Grows (world.delivers handle bytes) :=
  ⟨[], (delivers_log world bytes).trans (List.append_nil world.log).symm⟩

theorem Told.reply {world : World τ} {standing : Standing τ} {command : Command} {reply : Reply}
    (told : Exchanged config handle start (world.log ++ [(command, reply)]) standing)
    (linked : ({ world with phase := .idle } : World τ).Linked config handle standing) :
    Told config handle start (world.returns command reply) :=
  ⟨standing, told, linked⟩

theorem Told.calls {world : World τ} (told : Told config handle start world) (command : Command)
    (errno : Int) : Told config handle start (world.call config command errno) := by
  unfold call
  cases phase : world.phase with
  | sending other => exact told
  | receiving other loop => exact told
  | idle =>
      obtain ⟨standing, exchanged, linked⟩ := told
      dsimp only
      cases size : command.oversized config with
      | some reply =>
          have same : ({ world with phase := .idle } : World τ) = world := by
            rw [← phase]
          exact Told.reply (exchanged.oversized size) (same ▸ linked)
      | none =>
          refine ⟨standing, exchanged, ?_⟩
          cases standing with
          | lost => exact trivial
          | dead => exact ⟨linked.1, fun _ _ => nofun⟩
          | inStep terminal =>
              unfold Linked at linked ⊢
              rw [phase] at linked
              exact ⟨linked.1, linked.2, size⟩

theorem Told.sends {world : World τ} (told : Told config handle start world) {command : Command}
    (phase : world.phase = .sending command) (event : Event) :
    Told config handle start (world.sends config handle command event) := by
  obtain ⟨standing, exchanged, linked⟩ := told
  unfold World.sends
  by_cases shut : world.isOpen = false
  · rw [if_pos shut]
    refine Told.reply exchanged.unsent ?_
    cases standing with
    | lost => exact trivial
    | dead => exact ⟨shut, fun _ _ => nofun⟩
    | inStep terminal =>
        rw [linked.1] at shut
        cases shut
  · rw [if_neg shut]
    cases event with
    | ended => exact ⟨standing, exchanged, linked⟩
    | fails errno =>
        refine Told.reply exchanged.unsent ?_
        cases standing with
        | lost => exact trivial
        | dead => exact absurd linked.1 shut
        | inStep terminal =>
            unfold Linked at linked ⊢
            rw [phase] at linked
            exact ⟨linked.1, linked.2.1⟩
    | moves more =>
        dsimp only
        cases standing with
        | lost => exact .lost exchanged ((Grows.delivers world _).proceeds command .start)
        | dead => exact absurd linked.1 shut
        | inStep terminal =>
            unfold Linked at linked
            rw [phase] at linked
            obtain ⟨isOpen, ⟨clear, nothing, there⟩, fits⟩ := linked
            have frame := command.frame_whole config fits
            have count := piece_le more (command.frame config).length
            rw [proceeds_start]
            by_cases all : piece more (command.frame config).length = (command.frame config).length
            · rw [all, List.take_length, delivers_whole handle clear frame]
              refine ⟨.inStep terminal, exchanged, isOpen, fits, Loop.sound_start, by decide,
                .inl ⟨rfl, ?_, ?_⟩⟩
              · rw [← there]
                rfl
              · rw [← there]
                change [] ++ (world.incoming ++ _) = _
                rw [nothing]
                rfl
            · rw [delivers_part handle clear frame (List.take_prefix _ _)
                (by rw [List.length_take]; omega)]
              exact ⟨.inStep terminal, exchanged, isOpen, fits, Loop.sound_start, by decide,
                .inr ⟨rfl, nothing⟩⟩

theorem Told.readsNothing {world : World τ} (told : Told config handle start world)
    {command : Command} {loop : Loop} (phase : world.phase = .receiving command loop) :
    Told config handle start (world.readsNothing command) := by
  unfold World.readsNothing
  split
  · exact told
  · obtain ⟨standing, exchanged, linked⟩ := told
    cases standing with
    | lost => exact .lost exchanged ⟨_, rfl⟩
    | dead => exact absurd phase (linked.2 command loop)
    | inStep terminal => exact ⟨.dead, exchanged.broken, rfl, fun _ _ => nofun⟩

theorem Told.receives (whole : ∀ terminal frame, rjctFrame.Whole (handle terminal frame).1)
    {world : World τ} (told : Told config handle start world) {command : Command} {loop : Loop}
    (phase : world.phase = .receiving command loop) (event : Event) :
    Told config handle start (world.receives config command loop event) := by
  unfold World.receives
  cases asked : command.maxCommLength config loop with
  | none => exact told
  | some maxCommLength =>
      cases event with
      | ended =>
          dsimp only
          split
          · exact told.readsNothing phase
          · exact told
      | fails errno =>
          have same : Told config handle start { world with errno := errno } := told
          exact same.readsNothing phase
      | moves more =>
          dsimp only
          by_cases some : 0 < piece more (min maxCommLength world.incoming.length)
          · rw [if_pos some]
            obtain ⟨standing, exchanged, linked⟩ := told
            cases standing with
            | lost => exact .lost exchanged (Grows.proceeds ⟨[], (List.append_nil _).symm⟩ _ _)
            | dead => exact absurd phase (linked.2 command loop)
            | inStep terminal =>
                unfold Linked at linked
                rw [phase] at linked
                obtain ⟨isOpen, fits, sound, -, awaits⟩ := linked
                rcases awaits with ⟨clear, handled, reading⟩ | ⟨-, nothing⟩
                · refine Told.reading whole terminal ?_ ?_ ?_ ?_ fits (sound.read _) ?_
                  · exact exchanged
                  · exact isOpen
                  · exact clear
                  · exact handled
                  · rw [Loop.read_pRsp, List.append_assoc, List.take_append_drop, reading]
                · have none : piece more (min maxCommLength world.incoming.length) = 0 := by
                    have within := piece_le more (min maxCommLength world.incoming.length)
                    rw [nothing] at within ⊢
                    exact Nat.le_zero.mp (Nat.le_trans within (Nat.min_le_right _ _))
                  omega
          · rw [if_neg some]
            split
            · exact told.readsNothing phase
            · exact told

theorem Told.step (whole : ∀ terminal frame, rjctFrame.Whole (handle terminal frame).1)
    {world : World τ} (told : Told config handle start world) (action : Action) :
    Told config handle start (world.step config handle action).2 := by
  cases action with
  | call command errno => exact told.calls command errno
  | event event =>
      unfold World.step
      dsimp only
      cases phase : world.phase with
      | idle => exact told
      | sending command => exact told.sends phase event
      | receiving command loop => exact told.receives whole phase event

end World

/-- Whatever the socket does, no call returns anything but the answer to its own command. -/
theorem session_exchanged (start : τ)
    (whole : ∀ terminal frame, rjctFrame.Whole (handle terminal frame).1) (actions : List Action) :
    let world := (Machine.run (World.step config handle) (World.opened start) actions).2
    ∃ standing, Exchanged config handle start world.log standing ∧
      world.Linked config handle standing := by
  have opened : World.Told config handle start (World.opened start) :=
    ⟨.inStep start, .opened, rfl, rfl, rfl, rfl⟩
  have always : ∀ world, World.Told config handle start world →
      World.Told config handle start (Machine.run (World.step config handle) world actions).2 := by
    induction actions with
    | nil => exact fun world told => told
    | cons action actions ih => exact fun world told => ih _ (told.step whole action)
  exact always _ opened

def sixteen : Config :=
  { maxBufSize := 16, mtyClose := 0x03, mtyWaitForCard := 0x00, mytDefaultNad := 0x00
    roomy := by decide, lengthFits := by decide }

def counting (asked : Nat) (_ : Bytes) : Bytes × Nat :=
  (apduFrame [UInt8.ofNat asked, 0x90, 0x00], asked + 1)

theorem counting_whole (asked : Nat) (frame : Bytes) :
    rjctFrame.Whole (counting asked frame).1 := by
  apply apduFrame_whole
  change 3 < 65536
  decide

/-- The second command is cut short, and then the terminal hangs up. -/
theorem session_exchanged_cut :
    let world := (Machine.run (World.step sixteen counting) (World.opened 0)
      [.call (.transceiveRaw [1, 2] 8) 0, .event (.moves 5), .event (.moves 2),
        .event (.fails eintr), .event (.moves 9), .call (.transceiveRaw [3] 8) 0,
        .event (.moves 2), .event .ended]).2
    ∃ standing, Exchanged sixteen counting 0 world.log standing ∧
      world.Linked sixteen counting standing :=
  session_exchanged sixteen counting 0 counting_whole _

/-! ### Buffers -/

/-- What a call copied into the buffer it was given. An APDU keeps what is behind the copy. -/
def Fits : Command × Reply → Prop
  | (.getAtr atrLen, .atr _ (some pAtr)) => pAtr.length ≤ atrLen
  | (.transceive pApdu _, .transceived _ after) =>
      after.rxlen ≤ pApdu.rxlen ∧ ∃ copied : Bytes, copied.length ≤ pApdu.rxlen ∧
        after.pBuf = copied ++ pApdu.pBuf.drop copied.length
  | (.transceiveRaw _ pRxLen, .transceivedRaw _ pRx) => pRx.length ≤ pRxLen
  | (.close, .closed _) => True
  | (.getAtr _, .atr _ none) => True
  | _ => False

/-- Both buffers of the transport, and those of the callers so far. -/
structure World.Within (world : World τ) : Prop where
  sockapdu : ∀ command, world.phase = .sending command →
    (command.frame config).length ≤ config.maxBufSize
  response : ∀ command loop, world.phase = .receiving command loop →
    loop.pRsp.length ≤ config.maxBufSize ∧
      ∀ maxCommLength, command.maxCommLength config loop = some maxCommLength →
        loop.pRsp.length + maxCommLength ≤ config.maxBufSize
  callers : ∀ entry ∈ world.log, Fits entry

theorem fits_untouched {pApdu after : Apdu} {held : pApdu.buflen ≤ pApdu.pBuf.length}
    {rv : Status} (buffer : after.pBuf = pApdu.pBuf) (room : after.rxlen = pApdu.rxlen) :
    Fits (.transceive pApdu held, .transceived rv after) :=
  ⟨Nat.le_of_eq room, [], Nat.zero_le _, buffer⟩

theorem Command.received_fits (command : Command) (pRsp : Bytes) :
    Fits (command, command.received config pRsp) := by
  cases command with
  | close => exact trivial
  | getAtr atrLen =>
      rw [received]
      split
      · exact Nat.zero_le atrLen
      · next fits =>
          change (pRsp.drop 4).length ≤ atrLen
          rw [List.length_drop]
          omega
  | transceive pApdu held =>
      rw [received]
      split
      · next fits =>
          have copied : (pRsp.drop 4).length = pRsp.length - 4 := List.length_drop
          refine ⟨fits.1, pRsp.drop 4, ?_, ?_⟩
          · rw [copied]
            exact fits.1
          · rw [copied]
      · exact fits_untouched rfl rfl
  | transceiveRaw pTx pRxLen =>
      rw [received]
      split
      · next fits =>
          change (pRsp.drop 4).length ≤ pRxLen
          rw [List.length_drop]
          exact fits.1
      · exact Nat.zero_le pRxLen

theorem Command.unsent_fits (command : Command) : Fits (command, command.unsent) := by
  cases command with
  | transceive pApdu held => exact fits_untouched rfl rfl
  | getAtr atrLen => exact trivial
  | close => exact trivial
  | transceiveRaw pTx pRxLen => exact Nat.zero_le _

theorem Command.broken_fits (command : Command) : Fits (command, command.broken) := by
  cases command with
  | transceive pApdu held => exact fits_untouched rfl rfl
  | getAtr atrLen => exact trivial
  | close => exact trivial
  | transceiveRaw pTx pRxLen => exact Nat.zero_le _

theorem Command.oversized_fits {command : Command} {reply : Reply}
    (refused : command.oversized config = some reply) : Fits (command, reply) := by
  cases command with
  | getAtr atrLen => cases refused
  | close => cases refused
  | transceive pApdu held =>
      rw [oversized] at refused
      split at refused
      · cases refused
      · cases refused
        exact fits_untouched rfl rfl
  | transceiveRaw pTx pRxLen =>
      rw [oversized] at refused
      split at refused
      · cases refused
      · cases refused
        exact Nat.zero_le _

theorem Command.frame_le {command : Command} (fits : command.oversized config = none) :
    (command.frame config).length ≤ config.maxBufSize := by
  have roomy := config.roomy
  cases command with
  | getAtr atrLen => exact roomy
  | close =>
      change 4 ≤ _
      omega
  | transceive pApdu held =>
      rw [oversized] at fits
      split at fits
      · change (apduFrame _).length ≤ _
        rw [apduFrame, List.length_append, List.length_take]
        change 4 + _ ≤ _
        omega
      · cases fits
  | transceiveRaw pTx pRxLen =>
      rw [oversized] at fits
      split at fits
      · change (apduFrame _).length ≤ _
        rw [apduFrame, List.length_append]
        change 4 + _ ≤ _
        omega
      · cases fits

namespace World

variable {config handle}

theorem Within.returns {world : World τ} (callers : ∀ entry ∈ world.log, Fits entry)
    {command : Command} {reply : Reply} (fits : Fits (command, reply)) :
    (world.returns command reply).Within config := by
  refine ⟨fun _ => nofun, fun _ _ => nofun, ?_⟩
  intro entry member
  rcases List.mem_append.mp member with earlier | last
  · exact callers entry earlier
  · rw [List.mem_singleton.mp last]
    exact fits

theorem Within.proceeds {world : World τ} (callers : ∀ entry ∈ world.log, Fits entry)
    (command : Command) {loop : Loop} (within : loop.pRsp.length ≤ config.maxBufSize) :
    (world.proceeds config command loop).Within config := by
  unfold World.proceeds
  split
  · split
    · exact .returns callers (Nat.zero_le _)
    · refine .returns ?_ (Command.broken_fits _)
      exact callers
    · refine ⟨fun _ => nofun, ?_, callers⟩
      intro other again same
      cases same
      refine ⟨within, ?_⟩
      intro maxCommLength asked
      have fits := Command.maxCommLength_le config asked
      omega
  · split
    · refine .returns ?_ (command.received_fits config loop.pRsp)
      exact callers
    · exact .returns callers (command.received_fits config loop.pRsp)

theorem Within.readsNothing {world : World τ} (within : world.Within config) (command : Command) :
    (world.readsNothing command).Within config := by
  unfold World.readsNothing
  split
  · exact within
  · refine .returns ?_ command.broken_fits
    exact within.callers

theorem Within.receives {world : World τ} (within : world.Within config) {command : Command}
    {loop : Loop} (phase : world.phase = .receiving command loop) (event : Event) :
    (world.receives config command loop event).Within config := by
  obtain ⟨fits, asks⟩ := within.response command loop phase
  unfold World.receives
  cases asked : command.maxCommLength config loop with
  | none => exact within
  | some maxCommLength =>
      cases event with
      | ended =>
          dsimp only
          split
          · exact within.readsNothing command
          · exact within
      | fails errno =>
          have same : ({ world with errno := errno } : World τ).Within config :=
            ⟨within.sockapdu, within.response, within.callers⟩
          exact same.readsNothing command
      | moves more =>
          dsimp only
          split
          · refine Within.proceeds ?_ command ?_
            · exact within.callers
            have count := piece_le more (min maxCommLength world.incoming.length)
            have room := asks maxCommLength asked
            rw [Loop.read_pRsp, List.length_append, List.length_take]
            omega
          · split
            · exact within.readsNothing command
            · exact within

theorem Within.step {world : World τ} (within : world.Within config) (action : Action) :
    (world.step config handle action).2.Within config := by
  cases action with
  | call command errno =>
      unfold World.step World.call
      dsimp only
      cases phase : world.phase with
      | sending other => exact within
      | receiving other loop => exact within
      | idle =>
          dsimp only
          cases size : command.oversized config with
          | some reply => exact .returns within.callers (Command.oversized_fits config size)
          | none =>
              refine ⟨?_, fun _ _ => nofun, within.callers⟩
              intro other same
              cases same
              exact command.frame_le config size
  | event event =>
      unfold World.step
      dsimp only
      cases phase : world.phase with
      | idle => exact within
      | receiving command loop => exact within.receives phase event
      | sending command =>
          dsimp only
          unfold World.sends
          split
          · exact .returns within.callers command.unsent_fits
          · cases event with
            | ended => exact within
            | fails errno =>
                refine Within.returns ?_ command.unsent_fits
                exact within.callers
            | moves more =>
                refine Within.proceeds ?_ command (Nat.zero_le _)
                rw [delivers_log]
                exact within.callers

end World

variable {config handle}

/-- Whatever the terminal and the socket do, every read ends within `pRsp`, every command lies in
`sockapdu`, and no more is copied to a caller than there is room for. -/
theorem buffers_hold (start : τ) (actions : List Action) :
    (Machine.run (World.step config handle) (World.opened start) actions).2.Within config := by
  have opened : (World.opened start).Within config :=
    ⟨fun _ => nofun, fun _ _ => nofun, fun _ => nofun⟩
  have always : ∀ world : World τ, world.Within config →
      (Machine.run (World.step config handle) world actions).2.Within config := by
    induction actions with
    | nil => exact fun world within => within
    | cons action actions ih => exact fun world within => ih _ (within.step action)
  exact always _ opened

/-! ### Exchanges that are not broken -/

structure Exchange where
  command : Command
  errno : Int
  more : Nat
  events : List Event

def Exchange.actions (exchange : Exchange) : List Action :=
  .call exchange.command exchange.errno :: .event (.moves exchange.more) ::
    exchange.events.map .event

def Event.arrives : Event → Bool
  | .moves _ => true
  | _ => false

variable (config handle)

/-- The command goes out at once, the answer comes in however it likes, and there is room for it. -/
structure Exchange.Calm (exchange : Exchange) (terminal : τ) : Prop where
  fits : exchange.command.oversized config = none
  goes : (exchange.command.frame config).length ≤ exchange.more + 1
  comes : ∀ event ∈ exchange.events, event.arrives = true ∨ event = .fails eintr
  enough : (handle terminal (exchange.command.frame config)).1.length ≤
    exchange.events.countP Event.arrives
  room : (handle terminal (exchange.command.frame config)).1.length ≤ config.maxBufSize
  roomAtr : ∀ atrLen, exchange.command = .getAtr atrLen →
    2 * (handle terminal (exchange.command.frame config)).1.length ≤ config.maxBufSize + 1

/-- Nothing is called after `CloseFD`. -/
def AllCalm : τ → List Exchange → Prop
  | _, [] => True
  | terminal, exchange :: exchanges =>
      exchange.Calm config handle terminal ∧ (exchange.command = .close → exchanges = []) ∧
        AllCalm (handle terminal (exchange.command.frame config)).2 exchanges

/-- The calls of the functions, with nothing between them and the terminal. -/
def direct : τ → List Command → List (Command × Reply)
  | _, [] => []
  | terminal, command :: commands =>
      (command, command.received config (handle terminal (command.frame config)).1) ::
        direct (handle terminal (command.frame config)).2 commands

variable {config handle}

theorem Command.asks {command : Command} {loop : Loop} (sound : loop.Sound) {frame left : Bytes}
    (whole : rjctFrame.Whole frame) (reading : loop.pRsp ++ left = frame)
    (more : loop.pRsp.length < loop.expectedLength) (room : frame.length ≤ config.maxBufSize)
    (roomAtr : ∀ atrLen, command = .getAtr atrLen → 2 * frame.length ≤ config.maxBufSize + 1) :
    ∃ maxCommLength, command.maxCommLength config loop = some maxCommLength ∧
      0 < maxCommLength ∧ 0 < left.length := by
  have roomy := config.roomy
  have headed := whole.headed
  change 4 ≤ frame.length at headed
  have expected := sound.expects whole reading
  have received := sound.received
  have length : frame.length = loop.pRsp.length + left.length := by
    rw [← reading, List.length_append]
  have missing : 0 < left.length := by
    split at expected
    · omega
    · omega
  cases command with
  | transceive pApdu held => exact ⟨_, rfl, by omega, missing⟩
  | transceiveRaw pTx pRxLen => exact ⟨_, rfl, by omega, missing⟩
  | getAtr atrLen =>
      have half := roomAtr atrLen rfl
      have fits : ¬config.maxBufSize - loop.pRsp.length < loop.expectedLength := by
        split at expected
        · omega
        · omega
      exact ⟨loop.expectedLength, if_neg fits, by omega, missing⟩
  | close =>
      rw [Command.maxCommLength]
      by_cases here : 4 ≤ loop.pRsp.length
      · rw [if_pos here] at expected
        rw [decide_eq_true here] at received
        have wanted : (if loop.lengthReceived = false then 4 - loop.pRsp.length
            else loop.expectedLength - loop.pRsp.length) = loop.expectedLength - loop.pRsp.length :=
          if_neg (by rw [received]; decide)
        rw [wanted, if_neg (by omega)]
        exact ⟨_, rfl, by omega, missing⟩
      · rw [if_neg here] at expected
        rw [decide_eq_false here] at received
        have wanted : (if loop.lengthReceived = false then 4 - loop.pRsp.length
            else loop.expectedLength - loop.pRsp.length) = 4 - loop.pRsp.length := if_pos received
        rw [wanted, if_neg (by omega)]
        exact ⟨_, rfl, by omega, missing⟩

theorem World.run_idle {world : World τ} (idle : world.phase = .idle) (events : List Event) :
    (Machine.run (World.step config handle) world (events.map .event)).2 = world := by
  induction events with
  | nil => rfl
  | cons event events ih =>
      have still : (world.step config handle (.event event)).2 = world := by
        unfold World.step
        dsimp only
        rw [idle]
      rw [List.map_cons]
      change (Machine.run _ (world.step config handle (.event event)).2 _).2 = world
      rw [still]
      exact ih

theorem World.run_answered {command : Command} {answer : Bytes}
    (frame : rjctFrame.Whole answer) (room : answer.length ≤ config.maxBufSize)
    (roomAtr : ∀ atrLen, command = .getAtr atrLen → 2 * answer.length ≤ config.maxBufSize + 1)
    (events : List Event)
    (comes : ∀ event ∈ events, event.arrives = true ∨ event = .fails eintr)
    (world : World τ) (loop : Loop) (phase : world.phase = .receiving command loop)
    (sound : loop.Sound) (more : loop.pRsp.length < loop.expectedLength)
    (reading : loop.pRsp ++ world.incoming = answer)
    (enough : world.incoming.length ≤ events.countP Event.arrives) :
    ∃ errno, (Machine.run (World.step config handle) world (events.map .event)).2 =
      { world with
        phase := .idle
        isOpen := if command = .close then false else world.isOpen
        errno := errno
        incoming := []
        log := world.log ++ [(command, command.received config answer)] } := by
  induction events generalizing world loop with
  | nil =>
      obtain ⟨_, -, -, missing⟩ := Command.asks sound frame reading more room roomAtr
      exact absurd enough (Nat.not_le.mpr missing)
  | cons event events ih =>
      obtain ⟨maxCommLength, asked, positive, missing⟩ :=
        Command.asks sound frame reading more room roomAtr
      have laterComes : ∀ later ∈ events, later.arrives = true ∨ later = .fails eintr :=
        fun later member => comes later (List.mem_cons_of_mem event member)
      rw [List.map_cons]
      change ∃ errno, (Machine.run _ (world.step config handle (.event event)).2 _).2 = _
      cases event with
      | ended => rcases comes .ended List.mem_cons_self with arrives | fails <;> contradiction
      | fails errno =>
          have interrupted : errno = eintr := by
            rcases comes (.fails errno) List.mem_cons_self with arrives | fails
            · cases arrives
            · cases fails
              rfl
          have again : (world.step config handle (.event (.fails errno))).2 =
              { world with errno := eintr } := by
            unfold World.step
            dsimp only
            rw [phase]
            dsimp only
            unfold World.receives
            rw [asked, interrupted]
            dsimp only
            unfold World.readsNothing
            rw [if_pos rfl, phase]
          rw [again]
          exact ih laterComes _ loop phase sound more reading enough
      | moves least =>
          have count := piece_le least (min maxCommLength world.incoming.length)
          have some : 0 < piece least (min maxCommLength world.incoming.length) :=
            piece_pos (Nat.lt_min.mpr ⟨positive, missing⟩)
          generalize pieces : piece least (min maxCommLength world.incoming.length) = taken
            at count some
          have next : (world.step config handle (.event (.moves least))).2 =
              { world with incoming := world.incoming.drop taken }.proceeds config command
                (loop.read (world.incoming.take taken)) := by
            unfold World.step
            dsimp only
            rw [phase]
            dsimp only
            unfold World.receives
            rw [asked]
            dsimp only
            rw [pieces, if_pos some, phase]
          have readOn : (loop.read (world.incoming.take taken)).pRsp ++
              world.incoming.drop taken = answer := by
            rw [Loop.read_pRsp, List.append_assoc, List.take_append_drop, reading]
          have soundOn := sound.read (world.incoming.take taken)
          rw [next]
          unfold World.proceeds
          by_cases moreLeft : (loop.read (world.incoming.take taken)).pRsp.length <
              (loop.read (world.incoming.take taken)).expectedLength
          · obtain ⟨askedOn, asks, -⟩ := Command.asks soundOn frame readOn moreLeft room roomAtr
            rw [if_pos moreLeft, asks]
            refine ih laterComes { world with incoming := _, phase := _ } _ rfl soundOn moreLeft
              readOn ?_
            rw [List.countP_cons_of_pos rfl] at enough
            rw [List.length_drop]
            omega
          · obtain ⟨all, nothing⟩ := soundOn.complete frame readOn moreLeft
            rw [if_neg moreLeft]
            by_cases closing : command = .close
            · rw [if_pos closing, if_pos closing, World.run_idle rfl, all, nothing]
              exact ⟨world.errno, rfl⟩
            · rw [if_neg closing, if_neg closing, World.run_idle rfl, all, nothing]
              exact ⟨world.errno, rfl⟩

theorem Exchange.Calm.run (whole : ∀ terminal frame, rjctFrame.Whole (handle terminal frame).1)
    {exchange : Exchange} {terminal : τ} (calm : exchange.Calm config handle terminal)
    {world : World τ} (idle : world.phase = .idle) (isOpen : world.isOpen = true)
    (clear : world.Clear terminal) :
    let answer := handle terminal (exchange.command.frame config)
    let after := (Machine.run (World.step config handle) world exchange.actions).2
    after.phase = .idle ∧ (exchange.command ≠ .close → after.isOpen = true) ∧
      after.Clear answer.2 ∧
      after.log =
        world.log ++ [(exchange.command, exchange.command.received config answer.1)] := by
  intro answer after
  obtain ⟨nothingPending, nothing, there⟩ := clear
  have frame := exchange.command.frame_whole config calm.fits
  have all : piece exchange.more (exchange.command.frame config).length =
      (exchange.command.frame config).length := Nat.min_eq_right calm.goes
  have called : (world.step config handle (.call exchange.command exchange.errno)).2 =
      { world with phase := .sending exchange.command, errno := exchange.errno } := by
    unfold World.step World.call
    dsimp only
    rw [idle]
    dsimp only
    rw [calm.fits]
  have sent : (Machine.run (World.step config handle) world
      [.call exchange.command exchange.errno, .event (.moves exchange.more)]).2 =
        { world with
          phase := .receiving exchange.command .start
          errno := exchange.errno
          pending := []
          terminal := answer.2
          incoming := answer.1 } := by
    change ((world.step config handle (.call _ _)).2.step config handle (.event _)).2 = _
    rw [called]
    change World.sends config handle _ exchange.command (.moves exchange.more) = _
    unfold World.sends
    rw [if_neg (by rw [isOpen]; decide)]
    dsimp only
    have delivered := World.delivers_whole handle (show ({ world with
      phase := .sending exchange.command, errno := exchange.errno } : World τ).pending = [] from
        nothingPending) frame
    rw [World.proceeds_start, all, List.take_length, delivered]
    unfold World.handles
    dsimp only
    rw [nothing, there, List.nil_append]
  have split : exchange.actions = [.call exchange.command exchange.errno,
      .event (.moves exchange.more)] ++ exchange.events.map .event := rfl
  have started : Loop.start.pRsp.length < Loop.start.expectedLength := by decide
  obtain ⟨errno, answered⟩ := World.run_answered (whole terminal _) calm.room
    calm.roomAtr exchange.events calm.comes
    { world with
      phase := .receiving exchange.command .start
      errno := exchange.errno
      pending := []
      terminal := answer.2
      incoming := answer.1 }
    .start rfl Loop.sound_start started rfl calm.enough
  have ended : after = (Machine.run (World.step config handle)
      (Machine.run (World.step config handle) world [.call exchange.command exchange.errno,
        .event (.moves exchange.more)]).2 (exchange.events.map .event)).2 := by
    change (Machine.run _ world exchange.actions).2 = _
    rw [split, Machine.run_append]
  rw [sent, answered] at ended
  rw [ended]
  exact ⟨rfl, fun stays => (if_neg stays).trans isOpen, ⟨rfl, rfl, rfl⟩, rfl⟩

theorem AllCalm.run (whole : ∀ terminal frame, rjctFrame.Whole (handle terminal frame).1)
    {exchanges : List Exchange} {terminal : τ} (calm : AllCalm config handle terminal exchanges)
    {world : World τ} (idle : world.phase = .idle) (isOpen : world.isOpen = true)
    (clear : world.Clear terminal) :
    (Machine.run (World.step config handle) world (exchanges.flatMap Exchange.actions)).2.log =
      world.log ++ direct config handle terminal (exchanges.map Exchange.command) := by
  induction exchanges generalizing terminal world with
  | nil => exact (List.append_nil world.log).symm
  | cons exchange exchanges ih =>
      obtain ⟨first, last, others⟩ := calm
      obtain ⟨idle, stillOpen, clear, log⟩ := first.run whole idle isOpen clear
      rw [List.flatMap_cons, Machine.run_append]
      dsimp only
      by_cases closing : exchange.command = .close
      · rw [last closing]
        exact log
      · rw [ih others idle (stillOpen closing) clear, log, List.append_assoc]
        rfl

/-- However the socket cuts the answers and interrupts the calls, they come to the same as calls
of the terminal itself. -/
theorem session_direct (whole : ∀ terminal frame, rjctFrame.Whole (handle terminal frame).1)
    (start : τ) (exchanges : List Exchange) (calm : AllCalm config handle start exchanges) :
    (Machine.run (World.step config handle) (World.opened start)
      (exchanges.flatMap Exchange.actions)).2.log =
        direct config handle start (exchanges.map Exchange.command) :=
  calm.run whole rfl rfl ⟨rfl, rfl, rfl⟩

/-- An interruption, and an answer in four pieces; then one that does not fit, and the end. -/
def interrupted : List Exchange :=
  [{ command := .transceiveRaw [1, 2] 8, errno := 0, more := 5,
     events := [.moves 0, .fails eintr, .moves 2, .moves 0] ++ List.replicate 4 (.moves 8) },
   { command := .transceiveRaw [3] 2, errno := eintr, more := 9,
     events := List.replicate 7 (.moves 6) },
   { command := .close, errno := 0, more := 3, events := List.replicate 7 (.moves 2) }]

theorem session_direct_interrupted :
    (Machine.run (World.step sixteen counting) (World.opened 0)
      (interrupted.flatMap Exchange.actions)).2.log =
        [(.transceiveRaw [1, 2] 8, .transceivedRaw .ok [0x00, 0x90, 0x00]),
         (.transceiveRaw [3] 2, .transceivedRaw .comFailed []), (.close, .closed none)] :=
  session_direct counting_whole 0 interrupted
    ⟨{ fits := rfl, goes := by decide, comes := by decide, enough := by decide
       room := by decide, roomAtr := nofun }, nofun,
     { fits := rfl, goes := by decide, comes := by decide, enough := by decide
       room := by decide, roomAtr := nofun }, nofun,
     { fits := rfl, goes := by decide, comes := by decide, enough := by decide
       room := by decide, roomAtr := nofun }, fun _ => rfl,
     trivial⟩

end

end Etlx.Se.SmComSocket
