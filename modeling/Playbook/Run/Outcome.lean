import Playbook.Run.Walk

/-! # Whole runs

A run binds its arguments, walks its playbook, and tells its observers how it has ended. When it fails or is
cancelled, the session in which it started is aborted with all that is open beneath it; the primary
session stays.
-/

namespace Playbook

inductive RunStatus where
  | completed
  | cancelled
  deriving DecidableEq, Repr

def RunStatus.name : RunStatus → String
  | .completed => "completed"
  | .cancelled => "cancelled"

/-- What a run hands back. -/
structure Outcome where
  status : RunStatus
  outputs : List Contribution
  steps : Nat
  usage : Usage
  trace : List TraceEntry
  /-- The final state of the walk. -/
  frame : Frame
  deriving DecidableEq, Repr

/-- The value that the last node has left under the default key. -/
def Outcome.last? (o : Outcome) : Option Json := o.frame.region.get? defaultOutputKey

namespace Engine

variable {σ : Type}

/-- The playbook of a name, with a region of the arguments. -/
def bindArguments (e : Engine σ) (name : String) (args : Dict Json) :
    Except Error (Definition × Region) := do
  let d ← e.playbooks.require name
  match d.checkArguments args.keys with
  | .error reason => .error (.argumentMismatch d.name reason)
  | .ok () =>
    let region ← Region.ofArgs args
    .ok (d, region)

/-- Walks a playbook in the active thread. -/
def start (e : Engine σ) (caller : Caller) (name : String) (args : Dict Json) (mark : ThreadId) :
    Exec σ WalkEnd := do
  let (d, region) ← Exec.ofExcept (e.bindArguments name args)
  Exec.publish caller.agent.id (.runStarted d.name)
  e.walk caller e.config.engine.maxCallDepth d (.start region mark)

/-- The outcome of a walk that has ended. -/
def outcome (status : RunStatus) (done : WalkEnd) (frame : Frame) : Exec σ Outcome :=
  Exec.look fun w =>
    { status, outputs := done.frame.outputs, steps := done.steps, usage := w.usage, trace := w.trace
      frame }

/-- Runs a playbook. -/
def run (e : Engine σ) (caller : Caller) (name : String) (args : Dict Json) : Exec σ Outcome := do
  let agent := caller.agent.id
  let mark ← Exec.look fun w => w.hierarchy.active
  match ← Exec.attempt (e.start caller name args mark) with
  | .ok done =>
    if done.cancelled then
      Exec.aborting agent (fun h => h.abortRun mark e.now)
      -- the thread in which the walk stopped may be closed by now
      let active ← Exec.look fun w => w.hierarchy.active
      Exec.publish agent (.runCancelled name)
      outcome .cancelled done { done.frame with thread := active }
    else
      Exec.publish agent (.runCompleted name done.steps done.frame.outputs.length)
      outcome .completed done done.frame
  | .error cause =>
    -- the cause that is told is that of the run, even if the sessions cannot be aborted
    let _ ← Exec.attempt (Exec.aborting agent (fun h => h.abortRun mark e.now))
    Exec.publish agent (.runFailed name cause.message)
    throw cause

end Engine

/-- The fragment that ends the stream of a run. -/
def Fragment.ending : Except Error Outcome → Fragment
  | .ok o =>
    match o.status with
    | .completed => .completed o.outputs o.usage
    | .cancelled => .cancelled o.outputs
  | .error cause => .failed cause.message

end Playbook
