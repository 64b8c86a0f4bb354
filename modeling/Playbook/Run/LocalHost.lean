import Playbook.Run.World
import Playbook.Tool

/-! # A host in one place

A host whose model answers from a script, whose memory is a list, and whose surface collects what it is
told. Failures can be planned, so that playbooks can be rehearsed.

A script of bare values can be replayed too. Texts come back as text and everything else as a structured
value; the usage is counted in tokens, and when the script is used up the model repeats what it was asked.
-/

namespace Playbook

/-! ## Scripted models -/

/-- What a scripted model says. -/
inductive ScriptLine where
  | answer (g : Generation)
  | failure (reason : String)
  deriving DecidableEq, Repr

inductive ScriptedModel where
  | lines (rest : List ScriptLine)
  | replay (rest : List Json)
  deriving DecidableEq, Repr

namespace ScriptedModel

/-- The content of the last message of the user. -/
def lastAsked (r : Request) : String :=
  ((r.context.messages.reverse.find? (fun m => m.role == .user)).map (·.content)).getD ""

/-- The tokens of a request. -/
def inputTokens (tokens : String → Nat) (r : Request) : Nat :=
  r.context.messages.foldl (fun n m => n + tokens m.content) (tokens r.context.system)

/-- The next answer to a request. -/
def next (tokens : String → Nat) (r : Request) :
    ScriptedModel → Except Error Generation × ScriptedModel
  | .lines [] => (.ok ⟨.text (lastAsked r), ⟨1, 1⟩⟩, .lines [])
  | .lines (.answer g :: rest) => (.ok g, .lines rest)
  | .lines (.failure reason :: rest) => (.error (.modelRequest reason), .lines rest)
  | .replay [] =>
    let asked := lastAsked r
    (.ok ⟨.text asked, ⟨inputTokens tokens r, tokens asked⟩⟩, .replay [])
  | .replay (.str s :: rest) => (.ok ⟨.text s, ⟨inputTokens tokens r, tokens s⟩⟩, .replay rest)
  | .replay (v :: rest) =>
    (.ok ⟨.structured v, ⟨inputTokens tokens r, tokens v.compact⟩⟩, .replay rest)

end ScriptedModel

/-! ## The host -/

/-- The state of a host. -/
structure Local where
  model : ScriptedModel
  memory : Memory
  /-- How many entries were to be appended. -/
  appends : Nat
  /-- The entries that were handed to the memory, whether it kept them or not. -/
  offered : List MemoryEntry
  /-- What has reached the surface. -/
  delivered : List (String × String)
  /-- Set by a tool that interrupts. -/
  interrupted : Bool
  deriving DecidableEq, Repr

/-- How a host behaves. -/
structure LocalPlan where
  tokens : String → Nat
  toolbox : Toolbox
  recollect : Memory → String → Nat → List MemoryEntry
  recallFails : Bool
  /-- The number of the append that fails before it reaches the memory. -/
  failingAppend : Option Nat
  /-- Whether the memory refuses everything that comes behind it. -/
  failsForGood : Bool
  /-- The delivery that fails, counted by those that have succeeded. -/
  failingDelivery : Option Nat
  /-- Whether an interrupting tool cancels the run. -/
  isInterruptible : Bool

namespace LocalPlan

/-- A plan without failures. -/
def plain (tokens : String → Nat) (toolbox : Toolbox) : LocalPlan :=
  { tokens, toolbox, recollect := Memory.recent, recallFails := false, failingAppend := none
    failsForGood := false, failingDelivery := none, isInterruptible := true }

/-- Whether the memory has stopped keeping entries when an append of this number comes. -/
def isClosed (p : LocalPlan) (number : Nat) : Bool :=
  p.failsForGood && p.failingAppend.any (· < number)

def append (p : LocalPlan) (s : Local) (entry : MemoryEntry) : Reply Local Unit :=
  let number := s.appends + 1
  let failure : Except Error Unit := .error (.memory "store unavailable")
  if p.failingAppend = some number then ⟨failure, false, { s with appends := number }⟩
  else
    let s := { s with appends := number, offered := s.offered ++ [entry] }
    if p.isClosed number then ⟨failure, false, s⟩
    else ⟨.ok (), false, { s with memory := s.memory.append entry }⟩

def deliver (p : LocalPlan) (s : Local) (agent content : String) : Reply Local Unit :=
  if p.failingDelivery = some (s.delivered.length + 1) then
    ⟨.error (.surface "window closed"), false, s⟩
  else ⟨.ok (), false, { s with delivered := s.delivered ++ [(agent, content)] }⟩

def useTool (p : LocalPlan) (s : Local) (_context : ToolContext) (name : String) (input : Json) :
    Reply Local String :=
  let interrupts := (p.toolbox.get? name).any (·.interrupts)
  ⟨p.toolbox.execute name input, interrupts && p.isInterruptible,
    { s with interrupted := s.interrupted || interrupts }⟩

def generate (p : LocalPlan) (s : Local) (r : Request) : Reply Local Generation :=
  let (result, model) := s.model.next p.tokens r
  ⟨result, false, { s with model }⟩

def recollected (p : LocalPlan) (s : Local) (agent : String) (limit : Nat) :
    Reply Local (List MemoryEntry) :=
  if p.recallFails then ⟨.error (.memory "recall unavailable"), false, s⟩
  else ⟨.ok (p.recollect s.memory agent limit), false, s⟩

/-- The host of a plan. Nobody else cancels its runs, and it keeps all sessions. -/
def host (p : LocalPlan) : Host Local :=
  { generate := p.generate, useTool := p.useTool, append := p.append, recollect := p.recollected
    deliver := p.deliver, interrupts := fun _ _ => false, keep := fun s _ => (.ok (), s) }

end LocalPlan

end Playbook
