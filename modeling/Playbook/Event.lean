import Playbook.Message
import Playbook.Thread

/-! # Events

What a run tells its observers while it goes on. Exactly the events of the three last kinds end a run.
-/

namespace Playbook

/-- What has happened. -/
inductive Happening where
  | runStarted (playbook : String)
  | nodeStarted (playbook node : String) (step : Nat)
  | nodeCompleted (node : String)
  | emitted (content : String)
  | threadEntered (thread : ThreadId) (depth budget : Nat)
  | threadCompleted (thread : ThreadId) (chronicle : Bool)
  | threadAborted (thread : ThreadId)
  | operationRejected (node reason : String)
  | usageUpdate (usage : Usage)
  | runCompleted (playbook : String) (steps outputs : Nat)
  | runCancelled (playbook : String)
  | runFailed (playbook error : String)
  deriving DecidableEq, Repr

namespace Happening

def name : Happening → String
  | .runStarted .. => "run_started"
  | .nodeStarted .. => "node_started"
  | .nodeCompleted .. => "node_completed"
  | .emitted .. => "emitted"
  | .threadEntered .. => "thread_entered"
  | .threadCompleted .. => "thread_completed"
  | .threadAborted .. => "thread_aborted"
  | .operationRejected .. => "operation_rejected"
  | .usageUpdate .. => "usage_update"
  | .runCompleted .. => "run_completed"
  | .runCancelled .. => "run_cancelled"
  | .runFailed .. => "run_failed"

/-- Whether this ends a run. -/
def isTerminal : Happening → Bool
  | .runCompleted .. => true
  | .runCancelled .. => true
  | .runFailed .. => true
  | _ => false

end Happening

/-- Something that has happened in a run of an agent. -/
structure Event where
  agent : String
  what : Happening
  deriving DecidableEq, Repr

def Event.isTerminal (e : Event) : Bool := e.what.isTerminal

end Playbook
