/-
The help texts and the two passes over them.

A caller may count the bytes of a help text first and print it into a buffer
afterwards. Both passes make the same calls of `Put`; the counting one never fails,
and the other stops at the first piece that does not fit.
-/

import Etlx.Conf.Cli

namespace Etlx.Conf

open Ascii Io

/-! ### The texts -/

def CliCommand.helpLine (command : CliCommand) : Bytes :=
  ascii "  " ++ command.name ++ List.replicate (16 - command.name.length) space ++
    command.description ++ ascii "\n"

def CliApp.helpText (app : CliApp) : Bytes :=
  app.name ++
    (if app.shortDescription = [] then [] else ascii " - " ++ app.shortDescription) ++
    ascii "\n\n" ++
    (if app.longDescription = [] then [] else app.longDescription ++ ascii "\n\n") ++
    ascii "Usage:\n  " ++ app.name ++ ascii " <command> [options] [arguments]\n\nCommands:\n" ++
    app.commands.flatMap CliCommand.helpLine

def CliOption.helpText (opt : CliOption) : Bytes :=
  ascii "  " ++ opt.longOption ++
    (if opt.parameter = [] then [] else ascii " " ++ opt.parameter) ++
    ascii "\n      " ++ opt.description ++ ascii "\n"

def CliArgument.helpText (argument : CliArgument) : Bytes :=
  if argument.mandatory then ascii " <" ++ argument.name ++ ascii ">"
  else ascii " [" ++ argument.name ++ ascii "]"

def CliCommand.helpText (command : CliCommand) (appName : Bytes) : Bytes :=
  ascii "Usage:\n  " ++ appName ++ ascii " " ++ command.name ++
    (if command.options = [] then [] else ascii " [options]") ++
    (command.argument.map CliArgument.helpText).getD [] ++
    ascii "\n\n" ++
    (if command.description = [] then [] else command.description ++ ascii "\n") ++
    (if command.options = [] then []
      else ascii "\nOptions:\n" ++ command.options.flatMap CliOption.helpText)

theorem padded_flatten (s : Bytes) (width : Nat) :
    (padded s width).flatten = s ++ List.replicate (width - s.length) space := by
  rw [padded, List.flatten_cons, List.flatten_replicate_singleton]

theorem flatten_flatMap {α : Type} (items : List α) (pieces : α → List Bytes) :
    (items.flatMap pieces).flatten = items.flatMap (fun item => (pieces item).flatten) := by
  rw [List.flatMap_def, List.flatMap_def, List.flatten_flatten, List.map_map]
  rfl

theorem optional_flatten {α : Type} (field : List α) [Decidable (field = [])]
    (pieces : List Bytes) :
    (if field ≠ [] then pieces else []).flatten =
      if field = [] then [] else pieces.flatten := by
  by_cases absent : field = []
  · rw [if_neg (not_not_intro absent), if_pos absent, List.flatten_nil]
  · rw [if_pos absent, if_neg absent]

theorem CliApp.helpPieces_flatten (app : CliApp) : app.helpPieces.flatten = app.helpText := by
  have lines : app.commands.flatMap (fun command =>
      ([ascii "  "] ++ padded command.name 16 ++
        [command.description, ascii "\n"]).flatten) =
      app.commands.flatMap CliCommand.helpLine := by
    apply congrArg (fun line => app.commands.flatMap line)
    funext command
    simp only [List.flatten_append, padded_flatten, List.flatten_cons, List.flatten_nil,
      List.append_nil, List.append_assoc, CliCommand.helpLine]
  unfold CliApp.helpPieces CliApp.helpText
  rw [List.flatten_append, flatten_flatMap, lines]
  simp only [List.flatten_append, optional_flatten, List.flatten_cons, List.flatten_nil,
    List.append_nil, List.append_assoc]

theorem CliOption.helpPieces_flatten (opt : CliOption) :
    opt.helpPieces.flatten = opt.helpText := by
  simp only [CliOption.helpPieces, CliOption.helpText, List.flatten_append, optional_flatten,
    List.flatten_cons, List.flatten_nil, List.append_nil, List.append_assoc]

theorem CliArgument.helpPieces_flatten (argument : CliArgument) :
    argument.helpPieces.flatten = argument.helpText := by
  unfold CliArgument.helpPieces CliArgument.helpText
  cases argument.mandatory with
  | false => rfl
  | true => rfl

theorem CliCommand.helpPieces_flatten (command : CliCommand) (appName : Bytes) :
    (command.helpPieces appName).flatten = command.helpText appName := by
  have options : (command.options.flatMap CliOption.helpPieces).flatten =
      command.options.flatMap CliOption.helpText := by
    rw [flatten_flatMap, funext CliOption.helpPieces_flatten]
  unfold CliCommand.helpPieces CliCommand.helpText
  cases command.argument with
  | none =>
      simp only [List.flatten_append, optional_flatten, options, List.flatten_cons,
        List.flatten_nil, List.append_nil, List.append_assoc, Option.map_none, Option.getD_none]
  | some argument =>
      simp only [List.flatten_append, optional_flatten, options, argument.helpPieces_flatten,
        List.flatten_cons, List.flatten_nil, List.append_nil, List.append_assoc, Option.map_some,
        Option.getD_some]

/-! ### The two passes -/

section

variable {τ : Type} {out : Writer τ} {t : τ} {piece : Bytes}

theorem putAll_ok (wrote : (out t piece).1 = .ok ()) (pieces : List Bytes) :
    putAll out t (piece :: pieces) = putAll out (out t piece).2 pieces := by
  rw [putAll]
  split
  · next e after failed =>
      rw [failed] at wrote
      cases wrote
  · next after written => rw [written]

theorem putAll_error {e : Error} {t' : τ} (failed : out t piece = (.error e, t'))
    (pieces : List Bytes) : putAll out t (piece :: pieces) = (.error e, t') := by
  rw [putAll, failed]

end

theorem putAll_counts (pieces : List Bytes) (w : CountingWriter) :
    putAll CountingWriter.write w pieces =
      (.ok (), { count := w.count + pieces.flatten.length }) := by
  induction pieces generalizing w with
  | nil => rfl
  | cons piece pieces ih =>
      rw [putAll_ok rfl, ih, List.flatten_cons, List.length_append, ← Nat.add_assoc]
      rfl

section

variable {w before : SpanWriter} {data : Bytes}

theorem putAll_fits (pieces : List Bytes) (so : w.Extends before data)
    (fits : w.pos + pieces.flatten.length ≤ w.buffer.length) :
    (putAll SpanWriter.write w pieces).1 = .ok () ∧
      (putAll SpanWriter.write w pieces).2.Extends before (data ++ pieces.flatten) := by
  induction pieces generalizing w data with
  | nil =>
      rw [List.flatten_nil, List.append_nil]
      exact ⟨rfl, so⟩
  | cons piece pieces ih =>
      rw [List.flatten_cons, List.length_append] at fits
      have written : (w.write piece).1 = .ok () :=
        (SpanWriter.write_ok_iff w piece).mpr (by omega)
      have next := SpanWriter.write_extends (SpanWriter.extends_refl w) written
      rw [putAll_ok written, List.flatten_cons, ← List.append_assoc]
      apply ih (SpanWriter.write_extends so written)
      rw [next.pos, next.size, List.nil_append]
      omega

theorem putAll_full (pieces : List Bytes) (so : w.Extends before data)
    (full : w.buffer.length < w.pos + pieces.flatten.length) :
    (putAll SpanWriter.write w pieces).1 =
        fail Io.category Io.Code.shortWrite.value "SpanWriter buffer full" ∧
      ∃ front back, front ++ back = pieces.flatten ∧ back ≠ [] ∧
        (putAll SpanWriter.write w pieces).2.Extends before (data ++ front) := by
  induction pieces generalizing w data with
  | nil =>
      have inside := w.inside
      rw [List.flatten_nil, List.length_nil] at full
      omega
  | cons piece pieces ih =>
      rw [List.flatten_cons, List.length_append] at full
      by_cases room : w.pos + piece.length ≤ w.buffer.length
      · have written : (w.write piece).1 = .ok () :=
          (SpanWriter.write_ok_iff w piece).mpr room
        have next := SpanWriter.write_extends (SpanWriter.extends_refl w) written
        rw [putAll_ok written]
        obtain ⟨failed, front, back, whole, more, held⟩ :=
          ih (SpanWriter.write_extends so written) (by
            rw [next.pos, next.size, List.nil_append]
            omega)
        refine ⟨failed, piece ++ front, back, ?_, more, ?_⟩
        · rw [List.flatten_cons, ← whole, List.append_assoc]
        · rw [← List.append_assoc]
          exact held
      · rw [putAll_error (SpanWriter.write_full (Nat.not_le.mp room))]
        refine ⟨rfl, [], piece ++ pieces.flatten, List.flatten_cons.symm, ?_, ?_⟩
        · intro nothing
          have inside := w.inside
          have empty := congrArg List.length (List.append_eq_nil_iff.mp nothing).1
          rw [List.length_nil] at empty
          omega
        · rw [List.append_nil]
          exact so

end

/-- The sizing pass of a printer agrees with its pass into a buffer: `text` is printed
where the count says it fits, and otherwise a proper front of it. The `size_t` is the count
wherever there is a buffer for the text. -/
structure SizedBy (print : ∀ {τ : Type}, Writer τ → τ → Status × τ) (text : Bytes) : Prop where
  counted : print CountingWriter.write .construct = (.ok (), { count := text.length })
  size : ∀ buffer : Bytes, buffer.length < 2 ^ 64 →
    (print CountingWriter.write .construct).2.count ≤ buffer.length →
      (print CountingWriter.write .construct).2.size.toNat = text.length
  fits_iff : ∀ (buffer : Bytes) (addressable : buffer.length < 2 ^ 64),
    (print SpanWriter.write (.construct buffer addressable)).1 = .ok () ↔
      (print CountingWriter.write .construct).2.count ≤ buffer.length
  whole : ∀ (buffer : Bytes) (addressable : buffer.length < 2 ^ 64),
    (print CountingWriter.write .construct).2.count ≤ buffer.length →
      (print SpanWriter.write (.construct buffer addressable)).2.pos =
          (print CountingWriter.write .construct).2.count ∧
        (print SpanWriter.write (.construct buffer addressable)).2.text = text
  cut : ∀ (buffer : Bytes) (addressable : buffer.length < 2 ^ 64),
    buffer.length < (print CountingWriter.write .construct).2.count →
      (print SpanWriter.write (.construct buffer addressable)).1 =
          fail Io.category Io.Code.shortWrite.value "SpanWriter buffer full" ∧
        (print SpanWriter.write (.construct buffer addressable)).2.text <+: text ∧
        (print SpanWriter.write (.construct buffer addressable)).2.text ≠ text

theorem putAll_sized (pieces : List Bytes) :
    SizedBy (fun out t => putAll out t pieces) pieces.flatten := by
  have counted : putAll CountingWriter.write .construct pieces =
      (.ok (), { count := pieces.flatten.length }) := by
    rw [putAll_counts, CountingWriter.construct, Nat.zero_add]
  have fits (buffer : Bytes) (addressable : buffer.length < 2 ^ 64)
      (room : pieces.flatten.length ≤ buffer.length) :=
    putAll_fits pieces (SpanWriter.extends_refl (.construct buffer addressable))
      (by rw [SpanWriter.construct, Nat.zero_add]; exact room)
  have full (buffer : Bytes) (addressable : buffer.length < 2 ^ 64)
      (more : buffer.length < pieces.flatten.length) :=
    putAll_full pieces (SpanWriter.extends_refl (.construct buffer addressable))
      (by rw [SpanWriter.construct, Nat.zero_add]; exact more)
  refine ⟨counted, ?_, ?_, ?_, ?_⟩
  · intro buffer addressable room
    rw [counted] at room ⊢
    exact Io.CountingWriter.size_toNat (Nat.lt_of_le_of_lt room addressable)
  · intro buffer addressable
    rw [counted]
    constructor
    · intro printed
      by_contra more
      rw [(full buffer addressable (Nat.not_le.mp more)).1] at printed
      cases printed
    · intro room
      exact (fits buffer addressable room).1
  · intro buffer addressable room
    rw [counted] at room ⊢
    have held := (fits buffer addressable room).2
    exact ⟨held.place, held.text⟩
  · intro buffer addressable more
    rw [counted] at more
    obtain ⟨failed, front, back, whole, rest, held⟩ := full buffer addressable more
    have text : (putAll SpanWriter.write (.construct buffer addressable) pieces).2.text = front :=
      held.text
    refine ⟨failed, ?_, ?_⟩
    · rw [text, ← whole]
      exact List.prefix_append front back
    · rw [text, ← whole]
      intro same
      exact rest (List.append_right_eq_self.mp same.symm)

/-- The counting pass over a help text and the pass into a buffer agree, for the help
of every application and of each of its commands. -/
theorem help_sized (app : CliApp) :
    SizedBy (fun out t => printCliHelp app out t) app.helpText ∧
      (∀ name, name ∈ app.commands.map CliCommand.name →
        ∃ command ∈ app.commands, command.name = name ∧
          SizedBy (fun out t => printCliCommandHelp app name out t)
            (command.helpText app.name)) ∧
      (∀ name, name ∉ app.commands.map CliCommand.name →
        ∀ {τ : Type} (out : Writer τ) (t : τ), printCliCommandHelp app name out t =
          (fail category Code.unknownCommand.value (messageOf name), t)) := by
  refine ⟨?_, ?_, ?_⟩
  · rw [← app.helpPieces_flatten]
    exact putAll_sized app.helpPieces
  · intro name declared
    obtain ⟨command, among, named⟩ := List.mem_map.mp declared
    cases found : app.findCommand name with
    | none =>
        have missed := List.find?_eq_none.mp found command among
        exact absurd (beq_iff_eq.mpr named) missed
    | some command =>
        obtain ⟨listed, same⟩ := CliApp.findCommand_some found
        refine ⟨command, listed, same, ?_⟩
        rw [← command.helpPieces_flatten]
        have prints : ∀ {τ : Type} (out : Writer τ) (t : τ), printCliCommandHelp app name out t =
            putAll out t (command.helpPieces app.name) := by
          intro τ out t
          rw [printCliCommandHelp, found]
        simp only [prints]
        exact putAll_sized (command.helpPieces app.name)
  · intro name undeclared τ out t
    have missing : app.findCommand name = none := by
      apply List.find?_eq_none.mpr
      intro command among named
      exact undeclared (List.mem_map.mpr ⟨command, among, beq_iff_eq.mp named⟩)
    rw [printCliCommandHelp, missing]

end Etlx.Conf
