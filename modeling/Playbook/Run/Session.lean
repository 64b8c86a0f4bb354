import Playbook.Run.Generation

/-! # Sessions within a run

Entering a session and leaving it. A session that is left may get a chronicle from the model; if that
fails the session is aborted instead.
-/

namespace Playbook

/-- The chronicle of a session in which nothing was said. -/
def emptyChronicle : String := "No exchanges were recorded in this session."

/-- What the model is asked for a chronicle. -/
def chroniclePrompt (transcript : List Message) : String :=
  "Summarize this session in a few sentences. Keep decisions and open items.\n" ++
    String.join (transcript.map (fun m => "\n" ++ m.role.name ++ ": " ++ m.content))

namespace Engine

variable {σ : Type}

/-- Notes that an operation was rejected; the walk goes on. -/
def reject (caller : Caller) (node : Node) (cause : Error) (f : Frame) : Exec σ Frame := do
  let f ← Exec.ofExcept (f.write errorKey (.str cause.message))
  Exec.publish caller.agent.id (.operationRejected node.id cause.message)
  pure f

/-- Enters a session under the active one with a fresh id; the result is the id, or why the session was
rejected. -/
def open? (e : Engine σ) (caller : Caller) (ratio : Option Double) (label : Option String) :
    Exec σ (Except Error ThreadId) := fun w =>
  let id := e.supply w.drawn
  match w.hierarchy.enter id ratio label e.now with
  | .ok h =>
    let entered := (h.get? id).toList.map (fun t =>
      (⟨caller.agent.id, .threadEntered id t.depth t.budget⟩ : Event))
    (.ok (.ok id),
      -- only a session that was entered uses up its id
      { w with hierarchy := h, drawn := w.drawn + 1, events := w.events ++ entered })
  | .error cause => if cause.isRejection then (.ok (.error cause), w) else (.error cause, w)

/-- The chronicle of a session. -/
def chronicle (e : Engine σ) (caller : Caller) (id thread : ThreadId) : Exec σ String := do
  let h ← Exec.look World.hierarchy
  let transcript ← Exec.ofExcept (h.transcript id)
  if transcript.isEmpty then pure emptyChronicle
  else
    let v ← e.ask caller .workerLight (chroniclePrompt transcript) none thread
    pure v.display

/-- Completes the active session, with a chronicle if there is one, and goes back to its parent. -/
def complete (e : Engine σ) (caller : Caller) (id : ThreadId) (text : Option String) (f : Frame) :
    Exec σ Frame := do
  -- `leave` refuses a session that is not the active one, which fails the walk
  Exec.onHierarchy fun h => h.leave id text e.now
  let active ← Exec.look fun w => w.hierarchy.active
  Exec.publish caller.agent.id (.threadCompleted id text.isSome)
  pure { f with thread := active }

/-- Closes a session normally. The chronicle is made while the session is still active; if it cannot be
made, the session is aborted. -/
def close (e : Engine σ) (caller : Caller) (id : ThreadId) (summarize : Bool) (f : Frame) :
    Exec σ Frame := do
  if summarize then
    match ← Exec.attempt (e.chronicle caller id f.thread) with
    | .ok text => e.complete caller id (some text) f
    | .error cause =>
      Exec.aborting caller.agent.id (fun h => h.abort id e.now)
      throw cause
  else e.complete caller id none f

/-- Closes sessions, the innermost first. Blanks are skipped. -/
def closeAll (e : Engine σ) (caller : Caller) : List (Option ThreadId) → Frame → Exec σ Frame
  | [], f => pure { f with sessions := [] }
  | none :: rest, f => closeAll e caller rest { f with sessions := rest }
  | some id :: rest, f => do
    -- what was left open is summarized, whatever the call says of its own session
    let f ← e.close caller id true { f with sessions := rest }
    closeAll e caller rest f

/-- Opens a session for the walk. A rejected one leaves a blank. -/
def enterSession (e : Engine σ) (caller : Caller) (node : Node) (o : Opening) (f : Frame) :
    Exec σ Frame := do
  match ← e.open? caller o.windowRatio o.label with
  | .ok id => pure { f with sessions := some id :: f.sessions, thread := id }
  | .error cause => reject caller node cause { f with sessions := none :: f.sessions }

/-- Leaves the session that the walk has entered last. A walk at top level that has none may close a
session that was left open by an earlier run. -/
def leaveSession (e : Engine σ) (caller : Caller) (node : Node) (isTop summarize : Bool) (f : Frame) :
    Exec σ Frame := do
  match f.sessions with
  | some id :: rest => e.close caller id summarize { f with sessions := rest }
  | none :: rest => pure { f with sessions := rest }
  | [] =>
    -- a called playbook must not close what its caller has opened
    if isTop then
      let h ← Exec.look World.hierarchy
      let t ← Exec.ofExcept (h.require h.active)
      if t.isRoot then reject caller node .noOpenSession f
      else e.close caller t.id summarize f
    else reject caller node .noOpenSession f

end Engine

end Playbook
