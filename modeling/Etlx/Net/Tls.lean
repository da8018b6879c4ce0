/-
The calls that a `TlsSocket` makes of `mbedtls` and of its transport.

What `mbedtls` returns is given with each action; the calls go into a log. In whatever
order the members of the socket are used, the calls of a configuration come in their
order and none behind one that failed; a handshake runs on a transport that was connected
for it, towards the name that the configuration asks for, with the server verified unless
that configuration says not to; and the end is announced only to a peer that completed a
handshake. `Send` and `Recv` look at nothing, so it is the caller who sees to it that
there is a session.
-/

import Etlx.Lib.Machine
import Etlx.Lib.Transition
import Etlx.Net.Sockets
import Mathlib.Data.List.Induction

namespace Etlx.Net

open Transition (Each each_nil each_snoc)

structure TlsConfig where
  caCertPem : Bytes
  clientCertPem : Bytes
  clientKeyPem : Bytes
  serverName : Bytes
  skipVerify : Bool
deriving DecidableEq, Repr

namespace TlsSocket

inductive AuthMode
  | verifyNone
  | verifyRequired
deriving DecidableEq, Repr

inductive Call
  | configure (cfg : TlsConfig)
  | useExternalKey
  | seed (ret : Int)
  | configDefaults (ret : Int)
  | confRng
  | parseCa (pem : Bytes) (ret : Int)
  | confCaChain
  | confAuthmode (mode : AuthMode)
  | parseCert (pem : Bytes) (ret : Int)
  | parseKey (pem : Bytes) (ret : Int)
  | confOwnCert (external : Bool) (ret : Int)
  | setup (ret : Int)
  | transportConnect (host : Bytes) (port : UInt16) (status : Status)
  | setHostname (name : Bytes) (ret : Int)
  | setBio
  | handshake (ret : Int)
  | write (offered : Nat) (ret : Int)
  | read (offered : Nat) (ret : Int)
  | closeNotify
  | transportClose

structure Object where
  configured : Bool
  handshaked : Bool
  serverName : Bytes
  externalKey : Bool
  calls : List Call

def Object.start : Object :=
  { configured := false, handshaked := false, serverName := [], externalKey := false, calls := [] }

def Object.called (tls : Object) (call : Call) : Object := { tls with calls := tls.calls ++ [call] }

def tlsError (message : String) : Error :=
  { category := category, code := Code.tlsError.value, message := message }

/-! ### `Configure` -/

structure Answers where
  seed : Int
  configDefaults : Int
  parseCa : Int
  parseCert : Int
  parseKey : Int
  confOwnCert : Int
  setup : Int
deriving DecidableEq, Repr

def check (call : Call) (ret : Int) (message : String) (next : Object → Status × Object)
    (tls : Object) : Status × Object :=
  if ret ≠ 0 then (.error (tlsError message), tls.called call) else next (tls.called call)

def verifyServer (cfg : TlsConfig) (m : Answers) (next : Object → Status × Object)
    (tls : Object) : Status × Object :=
  if cfg.skipVerify then next (tls.called (.confAuthmode .verifyNone))
  else
    check (.parseCa cfg.caCertPem m.parseCa) m.parseCa "parse CA cert failed"
      (fun tls => next ((tls.called .confCaChain).called (.confAuthmode .verifyRequired))) tls

/-- The key is the external one where it is registered, and else parsed. -/
def presentClient (cfg : TlsConfig) (m : Answers) (next : Object → Status × Object)
    (tls : Object) : Status × Object :=
  let confOwnCert (external : Bool) : Object → Status × Object :=
    check (.confOwnCert external m.confOwnCert) m.confOwnCert "set client cert failed" next
  if cfg.clientCertPem ≠ [] ∧ (cfg.clientKeyPem ≠ [] ∨ tls.externalKey = true) then
    check (.parseCert cfg.clientCertPem m.parseCert) m.parseCert "parse client cert failed"
      (fun tls =>
        if tls.externalKey then confOwnCert true tls
        else
          check (.parseKey cfg.clientKeyPem m.parseKey) m.parseKey "parse client key failed"
            (confOwnCert false) tls) tls
  else next tls

def setUp (cfg : TlsConfig) (m : Answers) : Object → Status × Object :=
  check (.setup m.setup) m.setup "ssl setup failed"
    (fun tls => (.ok (), { tls with serverName := cfg.serverName, configured := true }))

def configure (cfg : TlsConfig) (m : Answers) (tls : Object) : Status × Object :=
  check (.seed m.seed) m.seed "drbg seed failed"
    (check (.configDefaults m.configDefaults) m.configDefaults "ssl config defaults failed"
      (fun tls =>
        verifyServer cfg m (presentClient cfg m (setUp cfg m)) (tls.called .confRng)))
    (tls.called (.configure cfg))

/-! ### The other members -/

def hostnameCapacity : Nat := 256

def hostname (serverName host : Bytes) : Bytes :=
  ((if serverName = [] then host else serverName).take (hostnameCapacity - 1)).takeWhile
    (fun byte => byte ≠ 0)

/-- The handshake loop; nothing is returned while it waits. -/
def handshakes (tls : Object) : List Int → Option Status × Object
  | [] => (none, tls)
  | ret :: rets =>
      let tls := tls.called (.handshake ret)
      if ret = 0 then (some (.ok ()), { tls with handshaked := true })
      else if wanted ret then handshakes tls rets
      else (some (.error (tlsError "TLS handshake failed")), tls)

def connect (host : Bytes) (port : UInt16) (transport : Status) (setHostname : Int)
    (rets : List Int) (tls : Object) : Option Status × Object :=
  if tls.configured = false then (some (.error (tlsError "Configure not called")), tls)
  else
    let tls := tls.called (.transportConnect host port transport)
    match transport with
    | .error e => (some (.error e), tls)
    | .ok () =>
        let tls := tls.called (.setHostname (hostname tls.serverName host) setHostname)
        if setHostname ≠ 0 then (some (.error (tlsError "set hostname failed")), tls)
        else handshakes (tls.called .setBio) rets

def close (tls : Object) : Object :=
  let tls := if tls.handshaked then { tls.called .closeNotify with handshaked := false } else tls
  tls.called .transportClose

inductive Action
  | useExternalKey
  | configure (cfg : TlsConfig) (m : Answers)
  | connect (host : Bytes) (port : UInt16) (transport : Status) (setHostname : Int)
      (rets : List Int)
  | send (src : Bytes) (rets : List Int)
  | recv (size : Nat) (rets : List Int)
  | close

/-- What a member returned; nothing where it has not returned, or returns nothing. -/
inductive Reply
  | nothing
  | status (status : Status)
  | received (count : Result Nat)

def Reply.ofStatus : Option Status → Reply
  | none => .nothing
  | some returned => .status returned

def Object.step (tls : Object) : Action → Reply × Object
  | .useExternalKey => (.nothing, { tls.called .useExternalKey with externalKey := true })
  | .configure cfg m => (.status (configure cfg m tls).1, (configure cfg m tls).2)
  | .connect host port transport setHostname rets =>
      let (status, tls) := connect host port transport setHostname rets tls
      (.ofStatus status, tls)
  | .send src rets =>
      let sent := TlsSocket.send src rets
      (.ofStatus sent.result,
        { tls with
          calls := tls.calls ++
            sent.attempts.map (fun attempt => .write attempt.presented.length attempt.answer) })
  | .recv size rets =>
      let (result, count) := Duplex.retry recvVerdict rets
      (match result with
        | none => .nothing
        | some count => .received count,
        { tls with calls := tls.calls ++ (rets.take count).map (.read size) })
  | .close => (.nothing, close tls)

/-! ### What a log tells -/

inductive Stage
  | fresh
  | begun
  | seeded
  | defaulted
  | randomized
  | trusted
  | chained
  | chosen
  | certified
  | keyed
  | presented
  | done
deriving DecidableEq, Repr

structure View where
  current : Option TlsConfig
  stage : Stage
  mode : Option (AuthMode × TlsConfig)
  isSetUp : Option TlsConfig
  external : Bool
  host : Option Bytes
  name : Option Bytes
  bio : Bool
  completed : Bool
  session : Bool

def View.start : View :=
  { current := none, stage := .fresh, mode := none, isSetUp := none, external := false
    host := none, name := none, bio := false, completed := false, session := false }

def View.passes (view : View) (ret : Int) (stage : Stage) : View :=
  if ret = 0 then { view with stage := stage } else view

/-- A session stands from its handshake on until the transport is connected again or closed. -/
def View.after (view : View) : Call → View
  | .configure cfg => { view with current := some cfg, stage := .begun }
  | .useExternalKey => { view with external := true }
  | .seed ret => view.passes ret .seeded
  | .configDefaults ret => view.passes ret .defaulted
  | .confRng => { view with stage := .randomized }
  | .parseCa _ ret => view.passes ret .trusted
  | .confCaChain => { view with stage := .chained }
  | .confAuthmode mode =>
      { view with mode := view.current.map (fun cfg => (mode, cfg)), stage := .chosen }
  | .parseCert _ ret => view.passes ret .certified
  | .parseKey _ ret => view.passes ret .keyed
  | .confOwnCert _ ret => view.passes ret .presented
  | .setup ret => if ret = 0 then { view with isSetUp := view.current, stage := .done } else view
  | .transportConnect host _ status =>
      { view with
        host := match status with
          | .ok () => some host
          | .error _ => none
        name := none
        bio := false
        session := false }
  | .setHostname name ret => if ret = 0 then { view with name := some name } else view
  | .setBio => { view with bio := true }
  | .handshake ret => if ret = 0 then { view with completed := true, session := true } else view
  | .write _ _ => view
  | .read _ _ => view
  | .closeNotify => { view with completed := false, session := false }
  | .transportClose => { view with host := none, name := none, bio := false, session := false }

def viewOf (calls : List Call) : View := calls.foldl View.after .start

/-- A client certificate is presented if there is one and a key for it. -/
def Presents (cfg : TlsConfig) (external : Bool) : Prop :=
  cfg.clientCertPem ≠ [] ∧ (cfg.clientKeyPem ≠ [] ∨ external = true)

/-- What is owed when a call is made. Bytes move on a session that stands, if the caller sends and
receives only then. -/
def Owed (keeps : Prop) (before : List Call) : Call → Prop
  | .configure _ => True
  | .useExternalKey => True
  | .seed _ => (viewOf before).stage = .begun
  | .configDefaults _ => (viewOf before).stage = .seeded
  | .confRng => (viewOf before).stage = .defaulted
  | .parseCa pem _ =>
      (viewOf before).stage = .randomized ∧
        ∃ cfg, (viewOf before).current = some cfg ∧ cfg.skipVerify = false ∧ pem = cfg.caCertPem
  | .confCaChain => (viewOf before).stage = .trusted
  | .confAuthmode .verifyNone =>
      (viewOf before).stage = .randomized ∧
        ∃ cfg, (viewOf before).current = some cfg ∧ cfg.skipVerify = true
  | .confAuthmode .verifyRequired =>
      (viewOf before).stage = .chained ∧
        ∃ cfg, (viewOf before).current = some cfg ∧ cfg.skipVerify = false
  | .parseCert pem _ =>
      (viewOf before).stage = .chosen ∧
        ∃ cfg, (viewOf before).current = some cfg ∧ pem = cfg.clientCertPem ∧
          Presents cfg (viewOf before).external
  | .parseKey pem _ =>
      (viewOf before).stage = .certified ∧ (viewOf before).external = false ∧
        ∃ cfg, (viewOf before).current = some cfg ∧ pem = cfg.clientKeyPem
  | .confOwnCert external _ =>
      external = (viewOf before).external ∧
        (viewOf before).stage = if external then .certified else .keyed
  | .setup _ =>
      ∃ cfg, (viewOf before).current = some cfg ∧
        ((viewOf before).stage = .presented ∧ Presents cfg (viewOf before).external ∨
          (viewOf before).stage = .chosen ∧ ¬Presents cfg (viewOf before).external)
  | .transportConnect _ _ _ => (viewOf before).isSetUp ≠ none
  | .setHostname _ _ => (viewOf before).host ≠ none
  | .setBio => (viewOf before).name ≠ none
  | .handshake _ =>
      (∃ cfg host, (viewOf before).isSetUp = some cfg ∧ (viewOf before).host = some host ∧
        (viewOf before).name = some (hostname cfg.serverName host)) ∧
      (viewOf before).bio = true ∧
      ∃ mode cfg, (viewOf before).mode = some (mode, cfg) ∧
        (mode = .verifyNone ↔ cfg.skipVerify = true)
  | .write _ _ => keeps → (viewOf before).session = true
  | .read _ _ => keeps → (viewOf before).session = true
  | .closeNotify => (viewOf before).completed = true
  | .transportClose => True

def InSession (tls : Object) : Action → Prop
  | .send _ _ => (viewOf tls.calls).session = true
  | .recv _ _ => (viewOf tls.calls).session = true
  | _ => True

theorem viewOf_snoc (calls : List Call) (call : Call) :
    viewOf (calls ++ [call]) = (viewOf calls).after call := by
  rw [viewOf, List.foldl_append]
  rfl

/-! ### What every member keeps -/

variable {keeps : Prop}

structure Legal (keeps : Prop) (tls : Object) : Prop where
  owed : Each (Owed keeps) tls.calls
  mode : ∀ mode cfg, (viewOf tls.calls).mode = some (mode, cfg) →
    (mode = .verifyNone ↔ cfg.skipVerify = true)
  configured : tls.configured = true →
    (∃ cfg, (viewOf tls.calls).isSetUp = some cfg ∧ tls.serverName = cfg.serverName) ∧
    ∃ mode, (viewOf tls.calls).mode = some mode
  external : tls.externalKey = (viewOf tls.calls).external
  handshaked : tls.handshaked = (viewOf tls.calls).completed

/-- The parts of a view that `Legal` speaks of. -/
structure View.Agrees (view other : View) : Prop where
  mode : other.mode = view.mode
  isSetUp : other.isSetUp = view.isSetUp
  external : other.external = view.external
  completed : other.completed = view.completed

def Call.Quiet : Call → Prop
  | .useExternalKey => False
  | .confAuthmode _ => False
  | .setup _ => False
  | .handshake _ => False
  | .closeNotify => False
  | _ => True

theorem View.passes_agrees (view : View) (ret : Int) (stage : Stage) :
    view.Agrees (view.passes ret stage) := by
  unfold View.passes
  split
  · exact ⟨rfl, rfl, rfl, rfl⟩
  · exact ⟨rfl, rfl, rfl, rfl⟩

theorem View.passes_current (view : View) (ret : Int) (stage : Stage) :
    (view.passes ret stage).current = view.current := by
  unfold View.passes
  split
  · rfl
  · rfl

theorem View.agrees_of_quiet (view : View) {call : Call} (quiet : call.Quiet) :
    view.Agrees (view.after call) := by
  cases call with
  | useExternalKey => exact quiet.elim
  | confAuthmode mode => exact quiet.elim
  | setup ret => exact quiet.elim
  | handshake ret => exact quiet.elim
  | closeNotify => exact quiet.elim
  | setHostname name ret =>
      rw [View.after]
      split
      · exact ⟨rfl, rfl, rfl, rfl⟩
      · exact ⟨rfl, rfl, rfl, rfl⟩
  | seed ret => exact view.passes_agrees ret _
  | configDefaults ret => exact view.passes_agrees ret _
  | parseCa pem ret => exact view.passes_agrees ret _
  | parseCert pem ret => exact view.passes_agrees ret _
  | parseKey pem ret => exact view.passes_agrees ret _
  | confOwnCert external ret => exact view.passes_agrees ret _
  | configure cfg => exact ⟨rfl, rfl, rfl, rfl⟩
  | confRng => exact ⟨rfl, rfl, rfl, rfl⟩
  | confCaChain => exact ⟨rfl, rfl, rfl, rfl⟩
  | transportConnect host port status => exact ⟨rfl, rfl, rfl, rfl⟩
  | setBio => exact ⟨rfl, rfl, rfl, rfl⟩
  | transportClose => exact ⟨rfl, rfl, rfl, rfl⟩
  | write offered ret => exact ⟨rfl, rfl, rfl, rfl⟩
  | read offered ret => exact ⟨rfl, rfl, rfl, rfl⟩

theorem Object.called_view (tls : Object) (call : Call) :
    viewOf (tls.called call).calls = (viewOf tls.calls).after call :=
  viewOf_snoc tls.calls call

theorem Legal.called {tls : Object} (legal : Legal keeps tls) {call : Call} (quiet : call.Quiet)
    (owed : Owed keeps tls.calls call) : Legal keeps (tls.called call) := by
  have agrees := (viewOf tls.calls).agrees_of_quiet quiet
  exact
    { owed := each_snoc.mpr ⟨legal.owed, owed⟩
      mode := by
        rw [tls.called_view, agrees.mode]
        exact legal.mode
      configured := by
        rw [tls.called_view, agrees.mode, agrees.isSetUp]
        exact legal.configured
      external := by
        rw [tls.called_view, agrees.external]
        exact legal.external
      handshaked := by
        rw [tls.called_view, agrees.completed]
        exact legal.handshaked }

theorem Legal.unchanged {tls : Object} (legal : Legal keeps tls) {call : Call}
    (owed : Owed keeps tls.calls call) (same : (viewOf tls.calls).after call = viewOf tls.calls) :
    Legal keeps (tls.called call) where
  owed := each_snoc.mpr ⟨legal.owed, owed⟩
  mode := by
    rw [tls.called_view, same]
    exact legal.mode
  configured := by
    rw [tls.called_view, same]
    exact legal.configured
  external := by
    rw [tls.called_view, same]
    exact legal.external
  handshaked := by
    rw [tls.called_view, same]
    exact legal.handshaked

theorem check_legal {tls : Object} {call : Call} {ret : Int} {message : String}
    {next : Object → Status × Object} (legal : Legal keeps (tls.called call))
    (later : ret = 0 → Legal keeps (next (tls.called call)).2) :
    Legal keeps (check call ret message next tls).2 := by
  unfold check
  by_cases failed : ret ≠ 0
  · rw [if_pos failed]
    exact legal
  · rw [if_neg failed]
    exact later (not_not.mp failed)

def Stage.verified : Stage → Bool
  | .chosen => true
  | .certified => true
  | .keyed => true
  | .presented => true
  | _ => false

structure Configuring (keeps : Prop) (cfg : TlsConfig) (stage : Stage) (tls : Object) : Prop where
  legal : Legal keeps tls
  current : (viewOf tls.calls).current = some cfg
  reached : (viewOf tls.calls).stage = stage
  chosen : stage.verified = true → ∃ mode, (viewOf tls.calls).mode = some mode

theorem Configuring.passes {cfg : TlsConfig} {stage : Stage} {tls : Object}
    (configuring : Configuring keeps cfg stage tls) (call : Call) (next : Stage)
    (quiet : call.Quiet)
    (owed : Owed keeps tls.calls call)
    (goesOn : (viewOf tls.calls).after call = { viewOf tls.calls with stage := next })
    (after : next.verified = true → stage.verified = true) :
    Configuring keeps cfg next (tls.called call) where
  legal := configuring.legal.called quiet owed
  current := by
    rw [tls.called_view, goesOn]
    exact configuring.current
  reached := by rw [tls.called_view, goesOn]
  chosen := by
    intro verified
    rw [tls.called_view, goesOn]
    exact configuring.chosen (after verified)

theorem Configuring.check {cfg : TlsConfig} {stage : Stage} {tls : Object}
    (configuring : Configuring keeps cfg stage tls) (next : Stage) {call : Call} {ret : Int}
    {message : String} {rest : Object → Status × Object} (quiet : call.Quiet)
    (owed : Owed keeps tls.calls call)
    (passes : (viewOf tls.calls).after call = (viewOf tls.calls).passes ret next)
    (after : next.verified = true → stage.verified = true)
    (later : Configuring keeps cfg next (tls.called call) →
      Legal keeps (rest (tls.called call)).2) :
    Legal keeps (check call ret message rest tls).2 := by
  apply check_legal (configuring.legal.called quiet owed)
  intro passed
  exact later (configuring.passes call next quiet owed (passes.trans (if_pos passed)) after)

theorem Configuring.confAuthmode {cfg : TlsConfig} {stage : Stage} {tls : Object}
    (configuring : Configuring keeps cfg stage tls) {mode : AuthMode}
    (owed : Owed keeps tls.calls (.confAuthmode mode))
    (asked : mode = .verifyNone ↔ cfg.skipVerify = true) :
    Configuring keeps cfg .chosen (tls.called (.confAuthmode mode)) := by
  have legal := configuring.legal
  have set : (viewOf (tls.called (.confAuthmode mode)).calls).mode = some (mode, cfg) := by
    rw [tls.called_view, View.after, configuring.current]
    rfl
  exact
    { legal :=
        { owed := each_snoc.mpr ⟨legal.owed, owed⟩
          mode := by
            intro other same chosen
            rw [set] at chosen
            cases chosen
            exact asked
          configured := by
            intro configured
            refine ⟨?_, _, set⟩
            rw [tls.called_view]
            exact (legal.configured configured).1
          external := by
            rw [tls.called_view]
            exact legal.external
          handshaked := by
            rw [tls.called_view]
            exact legal.handshaked }
      current := by
        rw [tls.called_view]
        exact configuring.current
      reached := by
        rw [tls.called_view]
        rfl
      chosen := fun _ => ⟨_, set⟩ }

theorem verifyServer_legal {cfg : TlsConfig} (m : Answers) {next : Object → Status × Object}
    {tls : Object} (configuring : Configuring keeps cfg .randomized tls)
    (later : ∀ tls, Configuring keeps cfg .chosen tls → Legal keeps (next tls).2) :
    Legal keeps (verifyServer cfg m next tls).2 := by
  unfold verifyServer
  by_cases skips : cfg.skipVerify = true
  · rw [if_pos skips]
    apply later
    apply configuring.confAuthmode
    · exact ⟨configuring.reached, cfg, configuring.current, skips⟩
    · exact ⟨fun _ => skips, fun _ => rfl⟩
  · rw [if_neg skips]
    have verifies := Bool.eq_false_iff.mpr skips
    refine configuring.check .trusted trivial
      ⟨configuring.reached, cfg, configuring.current, verifies, rfl⟩
      rfl nofun ?_
    intro trusted
    have chained := trusted.passes .confCaChain .chained trivial trusted.reached rfl nofun
    apply later
    apply chained.confAuthmode
    · exact ⟨chained.reached, cfg, chained.current, verifies⟩
    · exact ⟨nofun, fun asked => absurd asked skips⟩

structure SettingUp (keeps : Prop) (cfg : TlsConfig) (tls : Object) : Prop where
  legal : Legal keeps tls
  current : (viewOf tls.calls).current = some cfg
  stage : (viewOf tls.calls).stage = .presented ∧ Presents cfg (viewOf tls.calls).external ∨
    (viewOf tls.calls).stage = .chosen ∧ ¬Presents cfg (viewOf tls.calls).external
  chosen : ∃ mode, (viewOf tls.calls).mode = some mode

theorem presentClient_legal {cfg : TlsConfig} (m : Answers) {next : Object → Status × Object}
    {tls : Object} (configuring : Configuring keeps cfg .chosen tls)
    (later : ∀ tls, SettingUp keeps cfg tls → Legal keeps (next tls).2) :
    Legal keeps (presentClient cfg m next tls).2 := by
  have kept : ∀ (tls : Object) (call : Call), call.Quiet →
      (viewOf (tls.called call).calls).external = (viewOf tls.calls).external :=
    fun tls call quiet =>
      (congrArg View.external (tls.called_view call)).trans
        ((viewOf tls.calls).agrees_of_quiet quiet).external
  have presents : ∀ {tls : Object} {stage : Stage} (external : Bool),
      Configuring keeps cfg stage tls → external = (viewOf tls.calls).external →
      stage = (if external then Stage.certified else .keyed) → Presents cfg external →
      Legal keeps (check (.confOwnCert external m.confOwnCert) m.confOwnCert
        "set client cert failed" next tls).2 := by
    intro tls stage external configuring same here shown
    have verified : stage.verified = true := by
      rw [here]
      cases external <;> rfl
    refine configuring.check .presented trivial
      ⟨same, configuring.reached.trans here⟩ rfl (fun _ => verified) ?_
    intro presented
    refine later _ ⟨presented.legal, presented.current, .inl ⟨presented.reached, ?_⟩,
      presented.chosen rfl⟩
    rw [kept _ _ (by trivial), ← same]
    exact shown
  unfold presentClient
  dsimp only
  split
  · next shown =>
      rw [configuring.legal.external] at shown
      refine configuring.check .certified trivial
        ⟨configuring.reached, cfg, configuring.current, rfl, shown⟩ rfl (fun _ => rfl) ?_
      intro certified
      have view := kept tls (.parseCert cfg.clientCertPem m.parseCert) trivial
      rw [← view] at shown
      rw [certified.legal.external]
      cases external : (viewOf (tls.called
          (.parseCert cfg.clientCertPem m.parseCert)).calls).external with
      | true =>
          rw [external] at shown
          rw [if_pos rfl]
          exact presents true certified external.symm rfl shown
      | false =>
          rw [external] at shown
          rw [if_neg Bool.false_ne_true]
          refine certified.check .keyed trivial
            ⟨certified.reached, external, cfg, certified.current, rfl⟩ rfl (fun _ => rfl) ?_
          intro keyed
          have same := kept (tls.called (.parseCert cfg.clientCertPem m.parseCert))
            (.parseKey cfg.clientKeyPem m.parseKey) trivial
          exact presents false keyed (same.trans external).symm rfl shown
  · next hidden =>
      rw [configuring.legal.external] at hidden
      exact later tls ⟨configuring.legal, configuring.current, .inr ⟨configuring.reached, hidden⟩,
        configuring.chosen rfl⟩

theorem setUp_legal {cfg : TlsConfig} (m : Answers) {tls : Object}
    (settingUp : SettingUp keeps cfg tls) : Legal keeps (setUp cfg m tls).2 := by
  have legal := settingUp.legal
  have owed : Owed keeps tls.calls (.setup m.setup) := ⟨cfg, settingUp.current, settingUp.stage⟩
  unfold setUp TlsSocket.check
  by_cases failed : m.setup ≠ 0
  · rw [if_pos failed]
    exact legal.unchanged owed (by rw [View.after, if_neg failed])
  · rw [if_neg failed]
    have done : viewOf (tls.called (.setup m.setup)).calls =
        { viewOf tls.calls with isSetUp := (viewOf tls.calls).current, stage := .done } := by
      rw [tls.called_view, View.after, if_pos (not_not.mp failed)]
    exact
      { owed := each_snoc.mpr ⟨legal.owed, owed⟩
        mode := by
          dsimp only
          rw [done]
          exact legal.mode
        configured := by
          intro _
          dsimp only
          rw [done]
          exact ⟨⟨cfg, settingUp.current, rfl⟩, settingUp.chosen⟩
        external := by
          dsimp only
          rw [done]
          exact legal.external
        handshaked := by
          dsimp only
          rw [done]
          exact legal.handshaked }

theorem configure_legal (cfg : TlsConfig) (m : Answers) {tls : Object} (legal : Legal keeps tls) :
    Legal keeps (configure cfg m tls).2 := by
  have begun : Configuring keeps cfg .begun (tls.called (.configure cfg)) :=
    { legal := legal.called trivial trivial
      current := by rw [tls.called_view]; rfl
      reached := by rw [tls.called_view]; rfl
      chosen := nofun }
  unfold configure
  refine begun.check .seeded trivial begun.reached rfl nofun ?_
  intro seeded
  refine seeded.check .defaulted trivial seeded.reached rfl nofun ?_
  intro defaulted
  have randomized := defaulted.passes .confRng .randomized trivial defaulted.reached rfl nofun
  exact verifyServer_legal m randomized fun tls chosen =>
    presentClient_legal m chosen fun _ => setUp_legal m

structure Connected (keeps : Prop) (tls : Object) : Prop where
  legal : Legal keeps tls
  peer : ∃ cfg host, (viewOf tls.calls).isSetUp = some cfg ∧ (viewOf tls.calls).host = some host ∧
    (viewOf tls.calls).name = some (hostname cfg.serverName host)
  bio : (viewOf tls.calls).bio = true
  chosen : ∃ mode, (viewOf tls.calls).mode = some mode

theorem Connected.owed {tls : Object} (connected : Connected keeps tls) (ret : Int) :
    Owed keeps tls.calls (.handshake ret) := by
  obtain ⟨⟨mode, cfg⟩, chosen⟩ := connected.chosen
  exact ⟨connected.peer, connected.bio, mode, cfg, chosen,
    connected.legal.mode mode cfg chosen⟩

theorem handshakes_legal {tls : Object} (connected : Connected keeps tls) (rets : List Int) :
    Legal keeps (handshakes tls rets).2 ∧
      ((handshakes tls rets).1 = some (.ok ()) → (handshakes tls rets).2.handshaked = true ∧
        (viewOf (handshakes tls rets).2.calls).session = true) := by
  induction rets generalizing tls with
  | nil => exact ⟨connected.legal, fun impossible => by cases impossible⟩
  | cons ret rets ih =>
      have legal := connected.legal
      rw [handshakes]
      by_cases done : ret = 0
      · rw [if_pos done]
        have view : viewOf (tls.called (.handshake ret)).calls =
            { viewOf tls.calls with completed := true, session := true } := by
          rw [tls.called_view, View.after, if_pos done]
        refine ⟨?_, fun _ => ⟨rfl, by dsimp only; rw [view]⟩⟩
        exact
          { owed := each_snoc.mpr ⟨legal.owed, connected.owed ret⟩
            mode := by
              dsimp only
              rw [view]
              exact legal.mode
            configured := by
              dsimp only
              rw [view]
              exact legal.configured
            external := by
              dsimp only
              rw [view]
              exact legal.external
            handshaked := by
              dsimp only
              rw [view] }
      · rw [if_neg done]
        have same : (viewOf tls.calls).after (.handshake ret) = viewOf tls.calls := by
          rw [View.after, if_neg done]
        have later : Legal keeps (tls.called (.handshake ret)) :=
          legal.unchanged (connected.owed ret) same
        by_cases again : wanted ret
        · rw [if_pos again]
          apply ih
          have view := (tls.called_view (.handshake ret)).trans same
          exact
            { legal := later
              peer := by rw [view]; exact connected.peer
              bio := by rw [view]; exact connected.bio
              chosen := by rw [view]; exact connected.chosen }
        · rw [if_neg again]
          exact ⟨later, fun impossible => by cases impossible⟩

theorem connect_legal (host : Bytes) (port : UInt16) (transport : Status) (setHostname : Int)
    (rets : List Int) {tls : Object} (legal : Legal keeps tls) :
    Legal keeps (connect host port transport setHostname rets tls).2 ∧
      ((connect host port transport setHostname rets tls).1 = some (.ok ()) →
        (connect host port transport setHostname rets tls).2.handshaked = true ∧
          (viewOf (connect host port transport setHostname rets tls).2.calls).session = true) := by
  unfold connect
  by_cases unconfigured : tls.configured = false
  · rw [if_pos unconfigured]
    exact ⟨legal, fun impossible => by cases impossible⟩
  · rw [if_neg unconfigured]
    obtain ⟨⟨cfg, isSetUp, serverName⟩, chosen⟩ :=
      legal.configured (Bool.not_eq_false _ ▸ unconfigured)
    have reached : Legal keeps (tls.called (.transportConnect host port transport)) :=
      legal.called trivial (fun none => by rw [isSetUp] at none; cases none)
    cases transport with
    | error e => exact ⟨reached, fun impossible => by cases impossible⟩
    | ok done =>
        dsimp only
        have named : Legal keeps ((tls.called (.transportConnect host port (.ok done))).called
            (.setHostname (hostname tls.serverName host) setHostname)) :=
          reached.called trivial (by
            unfold Owed
            rw [tls.called_view]
            exact nofun)
        by_cases refused : setHostname ≠ 0
        · rw [if_pos refused]
          exact ⟨named, fun impossible => by cases impossible⟩
        · rw [if_neg refused]
          have view : viewOf (((tls.called (.transportConnect host port (.ok done))).called
              (.setHostname (hostname tls.serverName host) setHostname)).called .setBio).calls =
              { viewOf tls.calls with
                host := some host
                name := some (hostname tls.serverName host)
                bio := true
                session := false } := by
            rw [Object.called_view, Object.called_view, Object.called_view, View.after, View.after,
              View.after, if_pos (not_not.mp refused)]
          have connected : Connected keeps
              (((tls.called (.transportConnect host port (.ok done))).called
                (.setHostname (hostname tls.serverName host) setHostname)).called .setBio) :=
            { legal := named.called trivial (by
                unfold Owed
                rw [Object.called_view, View.after, if_pos (not_not.mp refused)]
                exact nofun)
              peer := by
                rw [view]
                exact ⟨cfg, host, isSetUp, rfl, by rw [serverName]⟩
              bio := by rw [view]
              chosen := by
                rw [view]
                exact chosen }
          exact handshakes_legal connected rets

theorem close_legal {tls : Object} (legal : Legal keeps tls) : Legal keeps (close tls) := by
  unfold close
  dsimp only
  have quiet : Call.transportClose.Quiet := trivial
  split
  · next handshaked =>
      have notified : Legal keeps { tls.called .closeNotify with handshaked := false } :=
        { owed := each_snoc.mpr ⟨legal.owed, legal.handshaked.symm.trans handshaked⟩
          mode := by
            dsimp only
            rw [tls.called_view]
            exact legal.mode
          configured := by
            dsimp only
            rw [tls.called_view]
            exact legal.configured
          external := by
            dsimp only
            rw [tls.called_view]
            exact legal.external
          handshaked := by
            dsimp only
            rw [tls.called_view]
            rfl }
      exact notified.called quiet trivial
  · exact legal.called quiet trivial

/-- Calls of the record layer, which are owed nothing here. -/
theorem Legal.transfers {tls : Object} (legal : Legal keeps tls) (calls : List Call)
    (plain : ∀ call ∈ calls, ∃ offered ret, call = .write offered ret ∨ call = .read offered ret)
    (stands : keeps → (viewOf tls.calls).session = true) :
    Legal keeps { tls with calls := tls.calls ++ calls } := by
  induction calls generalizing tls with
  | nil =>
      rw [List.append_nil]
      exact legal
  | cons call calls ih =>
      have next : Legal keeps (tls.called call) ∧
          viewOf (tls.called call).calls = viewOf tls.calls := by
        rw [tls.called_view]
        obtain ⟨offered, ret, rfl | rfl⟩ := plain call List.mem_cons_self
        · exact ⟨legal.called trivial stands, rfl⟩
        · exact ⟨legal.called trivial stands, rfl⟩
      have rest := ih next.1 (fun later member => plain later (List.mem_cons_of_mem _ member))
        (by rw [next.2]; exact stands)
      unfold Object.called at rest
      rw [List.append_assoc] at rest
      exact rest

theorem Legal.step {tls : Object} (legal : Legal keeps tls) (action : Action)
    (proper : keeps → InSession tls action) : Legal keeps (tls.step action).2 := by
  cases action with
  | useExternalKey =>
      have view := tls.called_view .useExternalKey
      exact
        { owed := each_snoc.mpr ⟨legal.owed, trivial⟩
          mode := by
            change ∀ mode cfg, (viewOf (tls.called .useExternalKey).calls).mode = _ → _
            rw [view]
            exact legal.mode
          configured := by
            change _ → (∃ cfg, (viewOf (tls.called .useExternalKey).calls).isSetUp = _ ∧ _) ∧
              ∃ mode, (viewOf (tls.called .useExternalKey).calls).mode = _
            rw [view]
            exact legal.configured
          external := by
            change true = (viewOf (tls.called .useExternalKey).calls).external
            rw [view]
            rfl
          handshaked := by
            change tls.handshaked = (viewOf (tls.called .useExternalKey).calls).completed
            rw [view]
            exact legal.handshaked }
  | configure cfg m => exact configure_legal cfg m legal
  | connect host port transport setHostname rets =>
      exact (connect_legal host port transport setHostname rets legal).1
  | send src rets =>
      refine legal.transfers _ ?_ proper
      intro call member
      obtain ⟨attempt, -, rfl⟩ := List.mem_map.mp member
      exact ⟨_, _, .inl rfl⟩
  | recv size rets =>
      refine legal.transfers _ ?_ proper
      intro call member
      obtain ⟨ret, -, rfl⟩ := List.mem_map.mp member
      exact ⟨_, _, .inr rfl⟩
  | close => exact close_legal legal

theorem view_configured (calls : List Call) :
    (∀ cfg, (viewOf calls).current = some cfg → .configure cfg ∈ calls) ∧
      ∀ mode cfg, (viewOf calls).mode = some (mode, cfg) → .configure cfg ∈ calls := by
  induction calls using List.reverseRecOn with
  | nil =>
      constructor
      · intro cfg impossible
        cases impossible
      · intro mode cfg impossible
        cases impossible
  | append_singleton calls call ih =>
      obtain ⟨current, inForce⟩ := ih
      have stays : ∀ {view : View}, view.current = (viewOf calls).current →
          view.mode = (viewOf calls).mode →
          (∀ cfg, view.current = some cfg → .configure cfg ∈ calls ++ [call]) ∧
            ∀ mode cfg, view.mode = some (mode, cfg) → .configure cfg ∈ calls ++ [call] := by
        intro view sameCurrent sameMode
        rw [sameCurrent, sameMode]
        exact ⟨fun cfg now => List.mem_append_left _ (current cfg now),
          fun mode cfg now => List.mem_append_left _ (inForce mode cfg now)⟩
      have passes := fun ret stage => stays ((viewOf calls).passes_current ret stage)
        ((viewOf calls).passes_agrees ret stage).mode
      rw [viewOf_snoc]
      cases call with
      | configure cfg =>
          refine ⟨?_, fun mode cfg now => List.mem_append_left _ (inForce mode cfg now)⟩
          intro other same
          cases same
          exact List.mem_append_right _ (List.mem_singleton_self _)
      | confAuthmode mode =>
          refine ⟨fun cfg now => List.mem_append_left _ (current cfg now), ?_⟩
          intro other cfg chosen
          obtain ⟨cfg', now, same⟩ := Option.map_eq_some_iff.mp chosen
          cases same
          exact List.mem_append_left _ (current _ now)
      | seed ret => exact passes ret _
      | configDefaults ret => exact passes ret _
      | parseCa pem ret => exact passes ret _
      | parseCert pem ret => exact passes ret _
      | parseKey pem ret => exact passes ret _
      | confOwnCert external ret => exact passes ret _
      | setup ret =>
          rw [View.after]
          split
          · exact stays rfl rfl
          · exact stays rfl rfl
      | setHostname name ret =>
          rw [View.after]
          split
          · exact stays rfl rfl
          · exact stays rfl rfl
      | handshake ret =>
          rw [View.after]
          split
          · exact stays rfl rfl
          · exact stays rfl rfl
      | _ => exact stays rfl rfl

structure Secured (keeps : Prop) (tls : Object) : Prop where
  owed : Each (Owed keeps) tls.calls
  announces : tls.handshaked = (viewOf tls.calls).completed
  connects : ∀ host port transport setHostname rets,
    (connect host port transport setHostname rets tls).1 = some (.ok ()) →
    (connect host port transport setHostname rets tls).2.handshaked = true ∧
      (viewOf (connect host port transport setHostname rets tls).2.calls).session = true
  verifies : (∀ cfg, .configure cfg ∈ tls.calls → cfg.skipVerify = false) →
    ∀ before ret after, tls.calls = before ++ .handshake ret :: after →
    ∃ cfg, (viewOf before).mode = some (.verifyRequired, cfg)

theorem Legal.secured {tls : Object} (legal : Legal keeps tls) : Secured keeps tls where
  owed := legal.owed
  announces := legal.handshaked
  connects := by
    intro host port transport setHostname rets
    exact (connect_legal host port transport setHostname rets legal).2
  verifies := by
    intro none before ret after split
    obtain ⟨-, -, mode, cfg, chosen, asked⟩ := legal.owed before _ after split
    have configured : .configure cfg ∈ tls.calls := by
      rw [split]
      exact List.mem_append_left _ ((view_configured before).2 mode cfg chosen)
    cases mode with
    | verifyRequired => exact ⟨cfg, chosen⟩
    | verifyNone =>
        have skips := asked.mp rfl
        rw [none cfg configured] at skips
        cases skips

/-- A caller that keeps to its session. -/
example (cfg : TlsConfig) :
    Machine.Meets Object.step InSession .start
      [.configure { cfg with skipVerify := true, clientCertPem := [] } ⟨0, 0, 0, 0, 0, 0, 0⟩,
        .connect [0x68] 443 (.ok ()) 0 [wantRead, 0], .send [1, 2] [2], .recv 16 [4], .close] :=
  ⟨trivial, trivial, rfl, rfl, trivial, trivial⟩

end TlsSocket

end Etlx.Net
