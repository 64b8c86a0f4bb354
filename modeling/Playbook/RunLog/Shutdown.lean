import Playbook.RunLog

/-! # Runs and loggers side by side

A run publishes its events to a channel, and its logger takes them from there. When the run is over, the logger is
told to stop. Where the logger can take an event and can stop as well, it does either. It takes an event and writes
its line in one step.

Main definitions: `Logging` is the state of the two, `Logging.step` what one of them does next, and
`Logging.Reaches` what they do one after the other, in any order.
-/

namespace Playbook.RunLog

/-- A run and its logger. -/
structure Logging where
  /-- What the run has yet to publish. -/
  ahead : List Notice
  /-- What has been published and not yet been received. -/
  queue : List Notice
  /-- Whether the logger has been told to stop. -/
  cancelled : Bool
  logger : Logger
  deriving DecidableEq, Repr

/-- What happens next. -/
inductive Move where
  /-- The run publishes its next event. -/
  | publish
  /-- The run is over, and the logger is told to stop. -/
  | cancel
  /-- The logger receives the next event. -/
  | receive
  /-- The logger finds that it has been told to stop. -/
  | stop
  deriving DecidableEq, Repr

namespace Logging

/-- The logger listens, and the run has not begun. -/
def start (agent : String) (level : Nat) (notices : List Notice) : Logging :=
  ⟨notices, [], false, .start agent level⟩

/-- What becomes of the two, if this can happen. -/
def step (capacity : Nat) (s : Logging) : Move → Option Logging
  | .publish =>
    match s.ahead with
    | [] => none
    | n :: ahead => some { s with ahead, queue := retained capacity (s.queue ++ [n]) }
  | .cancel => if s.ahead = [] then some { s with cancelled := true } else none
  | .receive =>
    match s.queue with
    | [] => none
    | n :: queue => if s.logger.stopped then none else some { s with queue, logger := s.logger.receive n }
  | .stop =>
    -- nothing is asked of the queue: what is still in it is lost
    if s.cancelled && !s.logger.stopped then some { s with logger := { s.logger with stopped := true } }
    else none

/-- What becomes of the two, if all of this can happen in its order. -/
def run (capacity : Nat) (s : Logging) : List Move → Option Logging
  | [] => some s
  | m :: moves => (s.step capacity m).bind fun s' => s'.run capacity moves

/-- In some order of events the one state becomes the other. -/
def Reaches (capacity : Nat) (s s' : Logging) : Prop := ∃ moves, s.run capacity moves = some s'

end Logging

end Playbook.RunLog
