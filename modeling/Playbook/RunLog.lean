import Playbook.Event
import Playbook.Text.Truncation

/-! # The log of runs

A logger follows the events of one agent and writes a line for each one that its level admits, up to the
end of the agent's run. What the clock shows meanwhile comes with the events.

Main definitions: `Notice` is an event with its clock reading, `passes` says which events a level admits, `entry`
what their line holds, `Logger.receive` what a logger does with one notice, and `log` what it writes for a sequence
of them.
-/

namespace Playbook.RunLog

/-- What the clock shows of an event. -/
structure Reading where
  /-- When the line is written. -/
  moment : Time
  /-- The milliseconds that the node has taken, if the event is the end of one. -/
  elapsed : Nat
  deriving DecidableEq, Repr

/-- An event as it comes to a logger, with what the clock shows, unless nobody looks at the clock. -/
structure Notice where
  event : Event
  reading? : Option Reading
  deriving DecidableEq, Repr

/-- An event without the time. -/
def Notice.untimed (e : Event) : Notice := ⟨e, none⟩

/-! ## Lines -/

/-- The least level that admits an event: the ends of runs always, then sessions and emissions, then every
node and every use of the model. -/
def levelOf : Happening → Nat
  | .runStarted .. => 0
  | .runCompleted .. => 0
  | .runCancelled .. => 0
  | .runFailed .. => 0
  | .threadEntered .. => 2
  | .threadCompleted .. => 2
  | .threadAborted .. => 2
  | .operationRejected .. => 2
  | .emitted .. => 2
  | .nodeStarted .. => 3
  | .nodeCompleted .. => 3
  | .usageUpdate .. => 3

/-- Whether a level admits an event. -/
def passes (level : Nat) (e : Event) : Bool := levelOf e.what ≤ level

/-- The most bytes of an emission that a line holds. -/
def contentLimit : Nat := 200

/-- What a line says beyond the kind of the event. -/
def detail (reading? : Option Reading) : Happening → Json
  | .runStarted playbook => .ofFields [("playbook", .str playbook)]
  | .nodeStarted playbook node step =>
    .ofFields [("playbook", .str playbook), ("node_id", .str node), ("step", .int step)]
  | .nodeCompleted node =>
    .ofFields (("node_id", .str node) :: (reading?.map fun r => ("elapsed_ms", .int r.elapsed)).toList)
  | .emitted content => .ofFields [("content", .str (Text.truncated contentLimit content))]
  | .threadEntered thread depth budget =>
    .ofFields [("thread_id", .str thread), ("depth", .int depth), ("budget", .int budget)]
  | .threadCompleted thread chronicle =>
    .ofFields [("thread_id", .str thread), ("chronicle", .bool chronicle)]
  | .threadAborted thread => .ofFields [("thread_id", .str thread)]
  | .operationRejected node reason =>
    .ofFields [("node_id", .str node), ("reason", .str reason)]
  | .usageUpdate usage =>
    .ofFields [("input_tokens", .int usage.input), ("output_tokens", .int usage.output)]
  | .runCompleted playbook steps outputs =>
    .ofFields [("playbook", .str playbook), ("steps", .int steps), ("outputs", .int outputs)]
  | .runCancelled playbook => .ofFields [("playbook", .str playbook)]
  | .runFailed playbook error => .ofFields [("playbook", .str playbook), ("error", .str error)]

/-- The line of an event. -/
def entry (n : Notice) : Json :=
  .obj ((n.reading?.map fun r => ("timestamp", .str r.moment.text)).toList ++
    [("agent_id", .str n.event.agent), ("event_type", .str n.event.what.name),
      ("detail", detail n.reading? n.event.what)])

/-- The line of an event, if the level admits the event. -/
def entry? (level : Nat) (n : Notice) : Option Json := if passes level n.event then some (entry n) else none

/-! ## Writing -/

/-- A logger at work: whom it follows, what it has written, and whether it has stopped. -/
structure Logger where
  agent : String
  level : Nat
  written : List Json
  stopped : Bool
  deriving DecidableEq, Repr

namespace Logger

/-- A logger that has received nothing. -/
def start (agent : String) (level : Nat) : Logger := ⟨agent, level, [], false⟩

/-- Receives an event. One of another agent, or one that the level does not admit, is passed over before
it is asked whether it ends the run. -/
def receive (l : Logger) (n : Notice) : Logger :=
  if l.stopped then l
  else if n.event.agent != l.agent then l
  else
    match entry? l.level n with
    -- the end of a run passes every level, so this never keeps a logger from stopping
    | none => l
    | some line => { l with written := l.written ++ [line], stopped := n.event.isTerminal }

/-- Receives events one by one. -/
def run (l : Logger) (notices : List Notice) : Logger := notices.foldl receive l

end Logger

/-- The lines that a logger of an agent writes. -/
def log (agent : String) (level : Nat) (notices : List Notice) : List Json :=
  ((Logger.start agent level).run notices).written

/-- The lines without what the clock shows. -/
def lines (agent : String) (level : Nat) (events : List Event) : List Json :=
  log agent level (events.map .untimed)

/-! ## Lagging behind -/

/-- The least power of two that is no less than a number; channels have room for so many. -/
def powerAbove (n : Nat) : Nat := if n ≤ 1 then 1 else Nat.pow 2 (Nat.log2 (n - 1) + 1)

/-- What a reader still gets who starts reading when all has been published: a channel keeps the newest. -/
def retained {α : Type} (capacity : Nat) (published : List α) : List α :=
  published.drop (published.length - powerAbove capacity)

end Playbook.RunLog
