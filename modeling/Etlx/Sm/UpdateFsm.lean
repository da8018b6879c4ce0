/-
The update workflow as a state machine.

Every state object handles the messages it declares and keeps the state on all
others.
-/

namespace Etlx.Sm

inductive State
  | idle
  | download
  | verify
  | install
  | awaitCommit
  | done
  | failed
deriving DecidableEq, Repr

inductive Message
  | start
  | next
  | commit
  | rollback
  | abort
deriving DecidableEq, Repr

/-- The `on_event` of each state; what a state does not declare changes nothing. -/
def State.receive : State → Message → State
  | .idle, .start => .download
  | .download, .next => .verify
  | .download, .abort => .failed
  | .verify, .next => .install
  | .verify, .abort => .failed
  | .install, .next => .awaitCommit
  | .install, .abort => .failed
  | .awaitCommit, .commit => .done
  | .awaitCommit, .rollback => .failed
  | .awaitCommit, .abort => .failed
  | state, _ => state

end Etlx.Sm
