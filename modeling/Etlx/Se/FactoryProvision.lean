/-
What `se_factory provision` makes of its options.

The loop folds over the tokens of the command line. It takes a key size of 4096 and
the policies "full" and "sign-decrypt", and passes every other value by: a later size
of 2048 does not undo a 4096, "sign-only" leaves the policy before it, and a value
that is not documented goes unnoticed.
-/

import Etlx.Se.FactoryHelp
import Mathlib.Data.List.Induction

namespace Etlx.Se.Factory

open Conf (CliCommand CmdlineOptionsIterator CommandLine Drains OptionValue)

/-! ### The loop over the tokens -/

section

variable {σ : Type} {command : CliCommand}

theorem optionLoop_ok {add : σ → OptionValue → σ} {it : CmdlineOptionsIterator}
    {collected result : σ} (collects : optionLoop command add it collected = .ok result) :
    ∃ tokens, Drains command it tokens ∧ tokens.foldl add collected = result := by
  induction it, collected using optionLoop.induct command add with
  | case1 it collected e it' step =>
      rw [optionLoop, step] at collects
      cases collects
  | case2 it collected it' step =>
      rw [optionLoop, step] at collects
      refine ⟨[], ?_, Except.ok.inj collects⟩
      unfold Drains
      rw [List.length_nil, Conf.calls_succ, step]
      rfl
  | case3 it collected ov it' step ih =>
      rw [optionLoop, step] at collects
      obtain ⟨tokens, drained, folds⟩ := ih collects
      refine ⟨ov :: tokens, ?_, folds⟩
      unfold Drains at drained ⊢
      rw [List.length_cons, Conf.calls_succ, step, drained]
      rfl

theorem optionLoop_drains {it : CmdlineOptionsIterator} {tokens : List OptionValue}
    (drained : Drains command it tokens) (add : σ → OptionValue → σ) (collected : σ) :
    optionLoop command add it collected = .ok (tokens.foldl add collected) := by
  induction tokens generalizing it collected with
  | nil =>
      have step : command.next it = (.ok none, (command.next it).2) := Prod.ext drained.nil rfl
      rw [optionLoop, step]
      rfl
  | cons ov tokens ih =>
      obtain ⟨answer, rest⟩ := drained.cons
      have step : command.next it = (.ok (some ov), (command.next it).2) := Prod.ext answer rfl
      rw [optionLoop, step]
      exact ih rest (add collected ov)

theorem optionLoop_render (named : command.WellNamed) {line : CommandLine}
    (fits : line.Fits command) (add : σ → OptionValue → σ) (collected : σ) :
    optionLoop command add (.start line.render) collected =
      .ok (line.tokens.foldl add collected) :=
  optionLoop_drains (Conf.calls_render named line fits 1) add collected

theorem optionLoop_unfit {argv : List Bytes}
    (unfit : ∀ line : CommandLine, line.Fits command → line.render ≠ argv)
    (add : σ → OptionValue → σ) (collected : σ) :
    ∃ e, optionLoop command add (.start argv) collected = .error e := by
  cases collects : optionLoop command add (.start argv) collected with
  | error e => exact ⟨e, rfl⟩
  | ok result =>
      obtain ⟨tokens, drained, -⟩ := optionLoop_ok collects
      obtain ⟨line, fits, rendered, -⟩ := drained.line
      exact absurd rendered (unfit line fits)

end

/-! ### What the options ask for -/

def RsaBits.ofText (text : Bytes) : Option RsaBits :=
  if text = ascii "2048" then some .k2048
  else if text = ascii "4096" then some .k4096
  else none

def KeyPolicy.ofText (text : Bytes) : Option KeyPolicy :=
  if text = ascii "full" then some .full
  else if text = ascii "sign-only" then some .signOnly
  else if text = ascii "sign-decrypt" then some .signDecrypt
  else none

def valuesOf (name : String) (tokens : List OptionValue) : List Bytes :=
  (tokens.filter (fun ov => ov.option == ascii name)).map OptionValue.value

/-- What the last of the values names, and without any the default. -/
def requested {α : Type} (ofText : Bytes → Option α) (default : α) (values : List Bytes) :
    Option α :=
  match values.getLast? with
  | none => some default
  | some value => ofText value

def requestedBits (tokens : List OptionValue) : Option RsaBits :=
  requested RsaBits.ofText .k2048 (valuesOf "--bits" tokens)

def requestedPolicy (tokens : List OptionValue) : Option KeyPolicy :=
  requested KeyPolicy.ofText .full (valuesOf "--policy" tokens)

def Documented (tokens : List OptionValue) : Prop :=
  (∀ value ∈ valuesOf "--bits" tokens, (RsaBits.ofText value).isSome = true) ∧
    ∀ value ∈ valuesOf "--policy" tokens, (KeyPolicy.ofText value).isSome = true

def Writes (line : CommandLine) (argv : List Bytes) : Prop :=
  line.Fits provisionCommand ∧ line.render = argv

def Refused {τ : Type} (process : Process τ) (outcome : Int × Process τ) : Prop :=
  outcome.1 ≠ 0 ∧ outcome.2.objects = process.objects ∧ outcome.2.generated = process.generated

/-- With these arguments a key is generated as they ask for it, and they are refused when they
are no command line of `provision` or when one of their values is not documented. -/
structure HonoursOrRefuses (argv : List Bytes) : Prop where
  generates : ∀ (τ : Type) (platform : Platform) (process : Process τ) (calls : List Generation),
    (cmdProvision platform argv process).2.generated = process.generated ++ calls →
      ∀ call ∈ calls, ∃ (line : CommandLine) (policy : KeyPolicy), Writes line argv ∧
        requestedBits line.tokens = some call.bits ∧
        requestedPolicy line.tokens = some policy ∧ call.policy = policy.policy
  refuses : (∀ line, Writes line argv → ¬Documented line.tokens) →
    ∀ (τ : Type) (platform : Platform) (process : Process τ),
      Refused process (cmdProvision platform argv process)

/-- The values that the loop does not pass by wrongly: documented ones, with no size of 2048
behind a 4096 and not "sign-only" for the last policy. -/
structure Understood (tokens : List OptionValue) : Prop where
  documented : Documented tokens
  bits : ascii "4096" ∈ valuesOf "--bits" tokens →
    (valuesOf "--bits" tokens).getLast? = some (ascii "4096")
  policy : (valuesOf "--policy" tokens).getLast? ≠ some (ascii "sign-only")

theorem provisionCommand_named : provisionCommand.WellNamed :=
  ⟨by decide, by decide, by decide, by decide⟩

theorem Writes.collects {line : CommandLine} {argv : List Bytes} (writes : Writes line argv)
    {σ : Type} (add : σ → OptionValue → σ) (collected : σ) :
    optionLoop provisionCommand add (.start argv) collected =
      .ok (line.tokens.foldl add collected) := by
  rw [← writes.2]
  exact optionLoop_render provisionCommand_named writes.1 add collected

theorem Writes.unique {line other : CommandLine} {argv : List Bytes} (first : Writes line argv)
    (second : Writes other argv) : line.tokens = other.tokens := by
  have one := first.collects (fun (seen : List OptionValue) ov => ov :: seen) []
  have two := second.collects (fun (seen : List OptionValue) ov => ov :: seen) []
  rw [one] at two
  have same := Except.ok.inj two
  rw [List.foldl_flip_cons_eq_append', List.foldl_flip_cons_eq_append'] at same
  exact List.reverse_injective (List.append_cancel_right same)

theorem KeyPolicy.policy_injective : Function.Injective KeyPolicy.policy := by
  intro first second same
  cases first <;> cases second <;> first | rfl | exact absurd same (by decide)

/-! ### What the loop collects -/

theorem valuesOf_concat (name : String) (tokens : List OptionValue) (ov : OptionValue) :
    valuesOf name (tokens ++ [ov]) =
      if ov.option = ascii name then valuesOf name tokens ++ [ov.value]
      else valuesOf name tokens := by
  unfold valuesOf
  rw [List.filter_append, List.map_append]
  by_cases named : ov.option = ascii name
  · simp [named]
  · simp [named]

theorem ProvisionArgs.add_bits (args : ProvisionArgs) (ov : OptionValue) :
    (args.add ov).bits =
      if ov.option = ascii "--bits" ∧ ov.value = ascii "4096" then .k4096 else args.bits := by
  unfold ProvisionArgs.add
  split_ifs <;> simp_all

theorem ProvisionArgs.add_policy (args : ProvisionArgs) (ov : OptionValue) :
    (args.add ov).policy =
      if ov.option = ascii "--policy" then
        if ov.value = ascii "full" then .full
        else if ov.value = ascii "sign-decrypt" then .signDecrypt
        else args.policy
      else args.policy := by
  have different : ascii "--policy" ≠ ascii "--bits" := by decide
  unfold ProvisionArgs.add
  split_ifs <;> simp_all

def ProvisionArgs.ofTokens (tokens : List OptionValue) : ProvisionArgs :=
  tokens.foldl ProvisionArgs.add .start

theorem ProvisionArgs.ofTokens_concat (tokens : List OptionValue) (ov : OptionValue) :
    ofTokens (tokens ++ [ov]) = (ofTokens tokens).add ov := by
  unfold ofTokens
  rw [List.foldl_append]
  rfl

/-- A size of 4096 stays, wherever it is given. -/
theorem ProvisionArgs.ofTokens_bits (tokens : List OptionValue) :
    (ofTokens tokens).bits =
      if ascii "4096" ∈ valuesOf "--bits" tokens then .k4096 else .k2048 := by
  induction tokens using List.reverseRecOn with
  | nil => rfl
  | append_singleton tokens ov ih =>
      rw [ofTokens_concat, add_bits, valuesOf_concat, ih]
      by_cases bits : ov.option = ascii "--bits"
      · rw [if_pos bits]
        by_cases large : ov.value = ascii "4096"
        · rw [if_pos ⟨bits, large⟩, if_pos (by simp [large])]
        · rw [if_neg (fun both => large both.2)]
          simp [Ne.symm large]
      · rw [if_neg bits, if_neg (fun both => bits both.1)]

/-- The last policy holds unless it is "sign-only". -/
theorem ProvisionArgs.ofTokens_policy {tokens : List OptionValue} {policy : KeyPolicy}
    (asked : requestedPolicy tokens = some policy) (taken : policy ≠ .signOnly) :
    (ofTokens tokens).policy = policy := by
  induction tokens using List.reverseRecOn with
  | nil => exact Option.some.inj asked
  | append_singleton tokens ov ih =>
      unfold requestedPolicy at asked ih
      rw [valuesOf_concat] at asked
      rw [ofTokens_concat, add_policy]
      by_cases named : ov.option = ascii "--policy"
      · rw [if_pos named] at asked ⊢
        unfold requested KeyPolicy.ofText at asked
        rw [List.getLast?_concat] at asked
        dsimp only at asked
        split_ifs at asked ⊢ <;> simp_all
      · rw [if_neg named] at asked ⊢
        exact ih asked

theorem ProvisionArgs.ofTokens_policy_ne (tokens : List OptionValue) :
    (ofTokens tokens).policy ≠ .signOnly := by
  induction tokens using List.reverseRecOn with
  | nil => decide
  | append_singleton tokens ov ih =>
      rw [ofTokens_concat, add_policy]
      split_ifs <;> simp_all

theorem requestedBits_iff {tokens : List OptionValue} (documented : Documented tokens) :
    requestedBits tokens = some (ProvisionArgs.ofTokens tokens).bits ↔
      (ascii "4096" ∈ valuesOf "--bits" tokens →
        (valuesOf "--bits" tokens).getLast? = some (ascii "4096")) := by
  unfold requestedBits requested
  rw [ProvisionArgs.ofTokens_bits]
  cases last : (valuesOf "--bits" tokens).getLast? with
  | none =>
      rw [List.getLast?_eq_none_iff.mp last]
      simp
  | some value =>
      have member := List.mem_of_getLast? last
      have known := documented.1 value member
      unfold RsaBits.ofText at known ⊢
      dsimp only
      by_cases large : value = ascii "4096"
      · subst large
        rw [if_pos member, if_neg (by decide), if_pos rfl]
        exact iff_of_true rfl (fun _ => rfl)
      · have small : value = ascii "2048" := by
          by_contra other
          rw [if_neg other, if_neg large] at known
          cases known
        rw [if_pos small]
        by_cases given : ascii "4096" ∈ valuesOf "--bits" tokens
        · rw [if_pos given]
          exact iff_of_false nofun (fun same => large (Option.some.inj (same given)))
        · rw [if_neg given]
          exact iff_of_true rfl (fun impossible => absurd impossible given)

theorem requestedPolicy_iff {tokens : List OptionValue} (documented : Documented tokens) :
    requestedPolicy tokens = some (ProvisionArgs.ofTokens tokens).policy ↔
      (valuesOf "--policy" tokens).getLast? ≠ some (ascii "sign-only") := by
  constructor
  · intro asked signOnly
    unfold requestedPolicy requested at asked
    rw [signOnly] at asked
    exact ProvisionArgs.ofTokens_policy_ne tokens (Option.some.inj asked).symm
  · intro taken
    have named : ∃ policy, requestedPolicy tokens = some policy ∧ policy ≠ .signOnly := by
      unfold requestedPolicy requested
      cases last : (valuesOf "--policy" tokens).getLast? with
      | none => exact ⟨.full, rfl, nofun⟩
      | some value =>
          have known := documented.2 value (List.mem_of_getLast? last)
          have other : value ≠ ascii "sign-only" := fun same => taken (by rw [last, same])
          unfold KeyPolicy.ofText at known ⊢
          dsimp only
          split_ifs at known ⊢
          · exact ⟨.full, rfl, nofun⟩
          · exact ⟨.signDecrypt, rfl, nofun⟩
          · cases known
    obtain ⟨policy, asked, taken⟩ := named
    rw [asked, ProvisionArgs.ofTokens_policy asked taken]

theorem understood_iff (tokens : List OptionValue) :
    Understood tokens ↔ Documented tokens ∧
      requestedBits tokens = some (ProvisionArgs.ofTokens tokens).bits ∧
      requestedPolicy tokens = some (ProvisionArgs.ofTokens tokens).policy := by
  constructor
  · intro understood
    have documented := understood.documented
    exact ⟨documented, (requestedBits_iff documented).mpr understood.bits,
      (requestedPolicy_iff documented).mpr understood.policy⟩
  · rintro ⟨documented, bits, policy⟩
    exact
      { documented := documented
        bits := (requestedBits_iff documented).mp bits
        policy := (requestedPolicy_iff documented).mp policy }

/-! ### What is generated -/

section

variable {τ : Type} (platform : Platform)

def ProvisionArgs.call (args : ProvisionArgs) : Generation :=
  { keyId := rsaKeyId, bits := args.bits, policy := args.policy.policy }

theorem generateKey_generated (args : ProvisionArgs) (process : Process τ) :
    (generateKey platform args.bits args.policy process).2.generated =
      process.generated ++ if platform.allocatesKey then [args.call] else [] := by
  unfold generateKey
  dsimp only
  by_cases allocates : platform.allocatesKey = true
  · rw [if_pos allocates, if_pos allocates]
    split <;> rfl
  · rw [if_neg allocates, if_neg allocates, List.append_nil]

theorem provisionKey_generated (args : ProvisionArgs) (process : Process τ) :
    (provisionKey platform args process).2.generated =
      process.generated ++ if platform.allocatesKey then [args.call] else [] := by
  rw [← generateKey_generated platform args process]
  unfold provisionKey
  obtain ⟨status, generated⟩ := generateKey platform args.bits args.policy process
  cases status with
  | error e => rfl
  | ok =>
      dsimp only
      split
      · rfl
      · split
        · rfl
        · split <;> rfl

theorem cmdProvision_generated {argv : List Bytes} {args : ProvisionArgs}
    (collects : optionLoop provisionCommand ProvisionArgs.add (.start argv) .start = .ok args)
    (process : Process τ) :
    ∃ calls, (cmdProvision platform argv process).2.generated = process.generated ++ calls ∧
      ∀ call ∈ calls, call = args.call := by
  have generates (process : Process τ) : ∃ calls,
      (provisionKey platform args process).2.generated = process.generated ++ calls ∧
        ∀ call ∈ calls, call = args.call := by
    refine ⟨_, provisionKey_generated platform args process, ?_⟩
    intro call member
    split at member
    · exact List.mem_singleton.mp member
    · cases member
  unfold cmdProvision
  rw [collects]
  dsimp only
  split
  · split
    · exact ⟨[], (List.append_nil _).symm, nofun⟩
    · exact generates _
  · exact generates process

theorem cmdProvision_refused {argv : List Bytes} {e : Error}
    (fails : optionLoop provisionCommand ProvisionArgs.add (.start argv) .start = .error e)
    (process : Process τ) : cmdProvision platform argv process = (1, process) := by
  unfold cmdProvision
  rw [fails]

end

theorem cmdProvision_working {argv : List Bytes} {args : ProvisionArgs}
    (collects : optionLoop provisionCommand ProvisionArgs.add (.start argv) .start = .ok args) :
    (cmdProvision (workingPlatform workingHost (fun _ => none)) argv
      (.start () (fun _ => none))).2.generated = [args.call] := by
  unfold cmdProvision
  rw [collects]
  exact provisionKey_generated (workingPlatform workingHost (fun _ => none)) args
    (.start () (fun _ => none))

theorem HonoursOrRefuses.documented {argv : List Bytes} (honours : HonoursOrRefuses argv)
    {line : CommandLine} (writes : Writes line argv) : Documented line.tokens := by
  by_contra unknown
  have undocumented : ∀ other, Writes other argv → ¬Documented other.tokens := by
    intro other otherWrites
    rw [otherWrites.unique writes]
    exact unknown
  have refused := (honours.refuses undocumented Unit
    (workingPlatform workingHost (fun _ => none)) (.start () (fun _ => none))).2.2
  rw [cmdProvision_working (writes.collects ProvisionArgs.add .start)] at refused
  cases refused

theorem HonoursOrRefuses.understood {argv : List Bytes} (honours : HonoursOrRefuses argv)
    {line : CommandLine} (writes : Writes line argv) : Understood line.tokens := by
  have generated := cmdProvision_working (writes.collects ProvisionArgs.add .start)
  obtain ⟨other, policy, otherWrites, bits, asked, same⟩ := honours.generates Unit
    (workingPlatform workingHost (fun _ => none)) (.start () (fun _ => none)) _ generated _
    (List.mem_singleton.mpr rfl)
  rw [otherWrites.unique writes] at bits asked
  have policies : (ProvisionArgs.ofTokens line.tokens).policy = policy :=
    KeyPolicy.policy_injective same
  rw [← policies] at asked
  exact (understood_iff line.tokens).mpr ⟨honours.documented writes, bits, asked⟩

/-- The options are honoured or refused exactly if argv is no command line of `provision` or
one that the loop understands. -/
theorem provision_honours_iff (argv : List Bytes) :
    HonoursOrRefuses argv ↔ ∀ line, Writes line argv → Understood line.tokens := by
  constructor
  · intro honours line writes
    exact honours.understood writes
  · intro understood
    constructor
    · intro τ platform process calls generated call member
      by_cases valid : ∃ line, Writes line argv
      · obtain ⟨line, writes⟩ := valid
        obtain ⟨made, appended, ofArgs⟩ := cmdProvision_generated platform
          (writes.collects ProvisionArgs.add .start) process
        rw [appended] at generated
        rw [← List.append_cancel_left generated] at member
        obtain ⟨-, bits, policy⟩ := (understood_iff line.tokens).mp (understood line writes)
        rw [ofArgs call member]
        exact ⟨line, _, writes, bits, policy, rfl⟩
      · obtain ⟨e, fails⟩ := optionLoop_unfit
          (fun line fits rendered => valid ⟨line, fits, rendered⟩) ProvisionArgs.add .start
        rw [cmdProvision_refused platform fails] at generated
        rw [List.self_eq_append_right.mp generated] at member
        cases member
    · intro undocumented τ platform process
      obtain ⟨e, fails⟩ := optionLoop_unfit
        (fun line fits rendered => undocumented line ⟨fits, rendered⟩
          (understood line ⟨fits, rendered⟩).documented) ProvisionArgs.add .start
      rw [cmdProvision_refused platform fails]
      exact ⟨nofun, rfl, rfl⟩

def signOnlyLine : CommandLine :=
  { pieces :=
      [.separate (option "--policy" "full | sign-only | sign-decrypt" "POLICY")
        (ascii "sign-only")]
    final := none }

theorem signOnlyLine_writes : Writes signOnlyLine [ascii "--policy", ascii "sign-only"] := by
  refine ⟨?_, rfl⟩
  intro piece member
  rw [List.mem_singleton.mp member]
  exact ⟨by decide, by decide⟩

/-- `--policy sign-only` generates a key that may do anything. -/
theorem provision_sign_only :
    (cmdProvision (workingPlatform workingHost (fun _ => none))
      [ascii "--policy", ascii "sign-only"] (.start () (fun _ => none))).2.generated =
        [{ keyId := rsaKeyId, bits := .k2048, policy := none }] ∧
    ¬HonoursOrRefuses [ascii "--policy", ascii "sign-only"] := by
  have generated : (cmdProvision (workingPlatform workingHost (fun _ => none))
      [ascii "--policy", ascii "sign-only"] (.start () (fun _ => none))).2.generated =
        [{ keyId := rsaKeyId, bits := .k2048, policy := none }] := by
    decide +kernel
  have asked : requestedPolicy signOnlyLine.tokens = some .signOnly := by decide
  refine ⟨generated, ?_⟩
  intro honours
  obtain ⟨line, policy, writes, -, named, same⟩ := honours.generates Unit
    (workingPlatform workingHost (fun _ => none)) (.start () (fun _ => none)) _ generated _
    (List.mem_singleton.mpr rfl)
  rw [writes.unique signOnlyLine_writes, asked] at named
  cases named
  cases same

end Etlx.Se.Factory
