import Playbook.Run.Session
import Playbook.Tool

/-! # Walks through playbooks

A walk dispatches one node after the other, from the start of a playbook until no successor is selected,
the run is cancelled, or the limit of steps is reached. A node may call another playbook, which is walked
in turn, at most as deep as the settings allow.
-/

namespace Playbook

/-- Where a walk stands in the chain of calls, and how it walks a called playbook, if it still may. -/
structure Level (σ : Type) where
  depth : Nat
  descend : Option (Definition → Frame → Exec σ WalkEnd)

namespace Engine

variable {σ : Type}

/-! ## Nodes that act on their own -/

/-- Asks the model and keeps the answer. -/
def generate (e : Engine σ) (caller : Caller) (g : Generate) (f : Frame) : Exec σ Frame := do
  let prompt ← Exec.ofExcept (Template.render f.region g.prompt)
  let v ← e.ask caller g.profile prompt g.schema f.thread
  Exec.ofExcept (f.write g.outputKey v)

/-- Uses a tool and keeps the answer. -/
def useTool (e : Engine σ) (caller : Caller) (t : ToolCall) (f : Frame) : Exec σ Frame := do
  let args ← Exec.ofExcept (Template.resolveArgs f.region t.args)
  let input := Json.ofDict args
  let context : ToolContext :=
    { agent := caller.agent.id, thread := f.thread, workingDirectory := e.workingDirectory }
  let content ← Exec.consult (fun s => e.host.useTool s context t.tool input) (.toolUsed context t.tool input)
  Exec.ofExcept (f.write t.outputKey (toolValue content))

/-- Appends to the memory of the agent, in the thread of the walk. -/
def remember (e : Engine σ) (caller : Caller) (role content : String) (tags : List String)
    (f : Frame) : Exec σ Unit :=
  let entry : MemoryEntry :=
    { agent := caller.agent.id, role, content, tags, thread := some f.thread, time := e.now }
  Exec.consult (fun s => e.host.append s entry) (.appended entry)

/-- Says something to the user: it is remembered, recorded in the thread, and delivered. -/
def emit (e : Engine σ) (caller : Caller) (node : Node) (source : String) (f : Frame) :
    Exec σ Frame := do
  let content ← Exec.ofExcept (Template.render f.region source)
  -- the user sees nothing that the memory and the thread do not hold
  e.remember caller Role.assistant.name content [conversationTag] f
  Exec.onHierarchy fun h => h.recordIn f.thread .assistant content [conversationTag]
  Exec.consult (fun s => e.host.deliver s caller.agent.id content)
    (.delivered caller.agent.id content)
  Exec.change fun w => { w with fragments := w.fragments ++ [.emission node.id content] }
  Exec.publish caller.agent.id (.emitted content)
  pure (f.contribute ⟨node.id, .emission, content⟩)

/-- A private thought: it is remembered, and nothing else. -/
def reflect (e : Engine σ) (caller : Caller) (source : String) (f : Frame) : Exec σ Frame := do
  let content ← Exec.ofExcept (Template.render f.region source)
  e.remember caller caller.agent.id content [internalTag] f
  pure f

/-- Remembers something. It is output as well, except at the top level of an orchestration. -/
def record (e : Engine σ) (caller : Caller) (node : Node) (isTop : Bool) (r : Recording)
    (f : Frame) : Exec σ Frame := do
  let content ← Exec.ofExcept (Template.render f.region r.content)
  e.remember caller (r.role.getD caller.agent.id) content r.tags f
  -- an orchestration hands on what its callees have put out, and nothing of its own records
  if isTop && caller.orchestration then pure f
  else pure (f.contribute ⟨node.id, .record, content⟩)

/-! ## Calls -/

/-- The called playbook with its region. Nothing but the named arguments crosses over. -/
def prepare (e : Engine σ) (c : Call) (level : Level σ) (f : Frame) :
    Except Error (Definition × Region × (Definition → Frame → Exec σ WalkEnd)) := do
  let callee ← e.playbooks.require c.playbook
  -- the depth is asked before the arguments: a call that is too deep reads no key of the region
  match level.descend with
  | none => .error (.callDepthExceeded e.config.engine.maxCallDepth)
  | some descend =>
    let args ← Template.resolveArgs f.region c.args
    match callee.checkArguments args.keys with
    | .error reason => .error (.argumentMismatch callee.name reason)
    | .ok () =>
      let region ← Region.ofArgs args
      .ok (callee, region, descend)

/-- What the caller keeps of a call that has ended: sessions that were left open, the result under its key,
and the output if it propagates. -/
def absorb (c : Call) (inline : Bool) (done : WalkEnd) (f : Frame) : Except Error (Step × Frame) := do
  let f :=
    { f with
      thread := if inline then done.frame.thread else f.thread
      sessions := done.frame.sessions ++ f.sessions }
  -- a cancelled callee hands back neither its result nor its output
  if done.cancelled then .ok (.halt, f)
  else
    let f ←
      match c.outputKey with
      | some key => f.write key ((done.frame.region.get? defaultOutputKey).getD .null)
      | none => .ok f
    .ok (.proceed,
      if c.propagate then { f with outputs := f.outputs ++ done.frame.outputs } else f)

/-- Walks the called playbook in the thread of the caller. If it fails, what it opened is aborted. -/
def callInline (e : Engine σ) (caller : Caller) (callee : Definition) (region : Region)
    (descend : Definition → Frame → Exec σ WalkEnd) (f : Frame) : Exec σ WalkEnd := do
  let (result, ledger) ← Exec.apart (descend callee (.start region f.thread))
  match result with
  | .ok done =>
    Exec.takeOver ledger
    pure done
  | .error cause =>
    Exec.takeOver ledger
    Exec.aborting caller.agent.id (fun h => h.abortAbove f.thread e.now)
    throw cause

/-- Walks the called playbook in a session of its own. What the walk leaves open is closed behind it, and then
the session itself. -/
def walkIsolated (e : Engine σ) (caller : Caller) (callee : Definition) (region : Region)
    (descend : Definition → Frame → Exec σ WalkEnd) (summarize : Bool) (child : ThreadId) :
    Exec σ WalkEnd := do
  let done ← descend callee (.start region child)
  -- nothing is closed behind a cancelled walk: its session is aborted as a whole
  if done.cancelled then pure done
  else
    let frame ← e.closeAll caller done.frame.sessions done.frame
    let frame ← e.close caller child summarize frame
    pure { done with frame }

/-- Walks the called playbook in a session of its own. If anything fails, or the run is cancelled, the
session is aborted. Aborting neither reads nor changes the ledger, so it may be taken over before. -/
def callIsolated (e : Engine σ) (caller : Caller) (callee : Definition) (region : Region)
    (descend : Definition → Frame → Exec σ WalkEnd) (summarize : Bool) (child : ThreadId) :
    Exec σ WalkEnd := do
  let (result, ledger) ← Exec.apart (e.walkIsolated caller callee region descend summarize child)
  match result with
  | .ok done =>
    Exec.takeOver ledger
    if done.cancelled then Exec.aborting caller.agent.id (fun h => h.abort child e.now)
    pure done
  | .error cause =>
    Exec.takeOver ledger
    Exec.aborting caller.agent.id (fun h => h.abort child e.now)
    throw cause

/-- Calls another playbook. -/
def call (e : Engine σ) (caller : Caller) (node : Node) (c : Call) (level : Level σ) (f : Frame) :
    Exec σ (Step × Frame) := do
  let (callee, region, descend) ← Exec.ofExcept (e.prepare c level f)
  match c.mode with
  | .inline =>
    let done ← e.callInline caller callee region descend f
    Exec.ofExcept (absorb c true done f)
  | .isolated =>
    match ← e.open? caller c.windowRatio (some callee.name) with
    | .error cause => do
      -- a rejection is no failure, so it does not branch
      let f ← reject caller node cause f
      pure (.proceed, f)
    | .ok child =>
      let done ← e.callIsolated caller callee region descend c.summarize child
      Exec.ofExcept (absorb c false done f)

/-- Calls another playbook; if the node says where to go on failure, the walk goes there with the message of
the error, and otherwise in the state before the call. -/
def invoke (e : Engine σ) (caller : Caller) (node : Node) (c : Call) (level : Level σ) (f : Frame) :
    Exec σ (Step × Frame) := do
  match c.onFailure with
  | none => e.call caller node c level f
  | some target =>
    match ← Exec.attempt (e.call caller node c level f) with
    | .ok done => pure done
    | .error cause =>
      let f ← Exec.ofExcept (f.write errorKey (.str cause.message))
      pure (.branch target, f)

/-! ## Dispatch -/

/-- Does what a node says. -/
def dispatch (e : Engine σ) (caller : Caller) (level : Level σ) (node : Node) (f : Frame) :
    Exec σ (Step × Frame) :=
  let isTop := level.depth == 0
  let proceed (x : Exec σ Frame) : Exec σ (Step × Frame) := do
    let f ← x
    pure (.proceed, f)
  match node.kind with
  | .generate g => proceed (e.generate caller g f)
  | .invokeTool t => proceed (e.useTool caller t f)
  | .emit content => proceed (e.emit caller node content f)
  | .reflect content => proceed (e.reflect caller content f)
  | .record r => proceed (e.record caller node isTop r f)
  | .pass => proceed (pure f)
  | .invoke c => e.invoke caller node c level f
  | .enterSession o => proceed (e.enterSession caller node o f)
  | .leaveSession summarize => proceed (e.leaveSession caller node isTop summarize f)

/-! ## Walks -/

/-- Dispatches nodes from one on. The first number bounds the steps that are left, the second counts those
that were made. -/
def steps (e : Engine σ) (caller : Caller) (level : Level σ) (d : Definition) :
    Nat → Nat → String → Frame → Exec σ WalkEnd
  | left, made, id, f => do
    -- a run that was cancelled ends as one even where no step is left
    if ← Exec.poll e.host then pure ⟨f, made, true⟩
    else
      match left with
      | 0 => throw (.stepLimitExceeded e.config.engine.maxSteps)
      | left + 1 =>
        match d.node? id with
        | none => throw (.nodeNotFound d.name id)
        | some node =>
          Exec.publish caller.agent.id (.nodeStarted d.name node.id (made + 1))
          let (step, f) ← e.dispatch caller level node f
          -- the node is in the trace only now: one that fails leaves no entry
          Exec.change fun w =>
            { w with
              trace := w.trace ++
                [⟨d.name, node.id, node.kind.typeName, made + 1, level.depth⟩] }
          Exec.publish caller.agent.id (.nodeCompleted node.id)
          match step with
          | .halt => pure ⟨f, made + 1, true⟩
          | .branch target => steps e caller level d left (made + 1) target f
          | .proceed =>
            match node.successor? f.region with
            | some next => steps e caller level d left (made + 1) next f
            | none => pure ⟨f, made + 1, false⟩

/-- Walks a playbook from its start, with a number of calls that may still be nested in it. -/
def walk (e : Engine σ) (caller : Caller) : Nat → Definition → Frame → Exec σ WalkEnd
  | 0, d, f =>
    e.steps caller ⟨e.config.engine.maxCallDepth, none⟩ d e.config.engine.maxSteps 0 d.start f
  | calls + 1, d, f =>
    e.steps caller ⟨e.config.engine.maxCallDepth - (calls + 1), some (walk e caller calls)⟩ d
      e.config.engine.maxSteps 0 d.start f

end Engine

end Playbook
