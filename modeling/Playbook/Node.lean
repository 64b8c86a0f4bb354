import Playbook.Predicate

/-! # Nodes

One vertex of a playbook: what it does, where it may lead, and which keys of the node region it reads
and writes.
-/

namespace Playbook

/-- The prompt profile that a generating node asks for. -/
inductive ProfileName where
  | conversation
  | router
  | worker
  | workerLight
  deriving DecidableEq, Repr, Inhabited

namespace ProfileName

def all : List ProfileName := [.conversation, .router, .worker, .workerLight]

def name : ProfileName → String
  | .conversation => "conversation"
  | .router => "router"
  | .worker => "worker"
  | .workerLight => "worker_light"

def ofName? : String → Option ProfileName
  | "conversation" => some .conversation
  | "router" => some .router
  | "worker" => some .worker
  | "worker_light" => some .workerLight
  | _ => none

end ProfileName

/-- The key that a node writes when it names none. -/
def defaultOutputKey : String := "last"

/-- The key that receives the message of a rejected operation or of a tolerated failure. -/
def errorKey : String := "error"

/-! ## What a node does -/

/-- Asks the model. -/
structure Generate where
  profile : ProfileName
  prompt : String
  schema : Option Json
  outputKey : String
  deriving DecidableEq, Repr

/-- Calls a tool. -/
structure ToolCall where
  tool : String
  args : Dict Json
  outputKey : String
  deriving DecidableEq, Repr

/-- Writes an entry into the memory. Without a role, the acting agent's id stands for it. -/
structure Recording where
  content : String
  tags : List String
  role : Option String
  deriving DecidableEq, Repr

/-- How a called playbook shares the caller's session: in the same thread, or in one of its own. -/
inductive CallMode where
  | inline
  | isolated
  deriving DecidableEq, Repr, Inhabited

def CallMode.name : CallMode → String
  | .inline => "inline"
  | .isolated => "isolated"

def CallMode.ofName? : String → Option CallMode
  | "inline" => some .inline
  | "isolated" => some .isolated
  | _ => none

/-- Calls another playbook. -/
structure Call where
  playbook : String
  args : Dict Json
  mode : CallMode
  propagate : Bool
  outputKey : Option String
  onFailure : Option String
  windowRatio : Option Double
  summarize : Bool
  deriving DecidableEq, Repr

/-- Opens a nested session. -/
structure Opening where
  windowRatio : Option Double
  label : Option String
  deriving DecidableEq, Repr

/-- The closed set of things that a node can do. -/
inductive NodeKind where
  | generate (g : Generate)
  | invokeTool (t : ToolCall)
  | emit (content : String)
  | reflect (content : String)
  | record (r : Recording)
  | pass
  | invoke (c : Call)
  | enterSession (o : Opening)
  | leaveSession (summarize : Bool)
  deriving DecidableEq, Repr

def NodeKind.typeName : NodeKind → String
  | .generate _ => "generate"
  | .invokeTool _ => "invoke_tool"
  | .emit _ => "emit"
  | .reflect _ => "reflect"
  | .record _ => "record"
  | .pass => "pass"
  | .invoke _ => "invoke"
  | .enterSession _ => "enter_session"
  | .leaveSession _ => "leave_session"

/-- The names of the kinds of nodes. -/
def nodeTypes : List String :=
  ["generate", "invoke_tool", "emit", "reflect", "record", "pass", "invoke", "enter_session",
    "leave_session"]

/-! ## Nodes -/

/-- An edge that is taken when its condition holds. -/
structure Branch where
  condition : Predicate
  target : String
  deriving DecidableEq, Repr

/-- One vertex of a playbook. -/
structure Node where
  id : String
  kind : NodeKind
  next : Option String
  branches : List Branch
  deriving DecidableEq, Repr

namespace Node

/-- The node that a failed call leads to. -/
def onFailure? (n : Node) : Option String :=
  match n.kind with
  | .invoke c => c.onFailure
  | _ => none

/-- The ids that the node may lead to. -/
def targets (n : Node) : List String :=
  n.branches.map (·.target) ++ n.next.toList ++ n.onFailure?.toList

/-- The first branch whose condition holds, else the next node; none ends the walk. -/
def successor? (n : Node) (r : Region) : Option String :=
  match n.branches.find? (fun b => b.condition.holds r) with
  | some b => some b.target
  | none => n.next

/-- The keys that the node's own texts read. -/
def kindReads : NodeKind → List String
  | .generate g => Template.references g.prompt
  | .invokeTool t => Template.argReferences t.args
  | .emit content => Template.references content
  | .reflect content => Template.references content
  | .record r => Template.references r.content
  | .invoke c => Template.argReferences c.args
  | .pass => []
  | .enterSession _ => []
  | .leaveSession _ => []

/-- The keys of the region that the node reads. -/
def reads (n : Node) : List String :=
  kindReads n.kind ++ n.branches.map (fun b => b.condition.rootKey)

/-- The keys of the region that the node writes. -/
def writes (n : Node) : List String :=
  match n.kind with
  | .generate g => [g.outputKey]
  | .invokeTool t => [t.outputKey]
  | .invoke c => c.outputKey.toList ++ (if c.onFailure.isSome then [errorKey] else [])
  | .enterSession _ => [errorKey]
  | _ => []

/-- The window ratio that the node declares. -/
def windowRatio? (n : Node) : Option Double :=
  match n.kind with
  | .enterSession o => o.windowRatio
  | .invoke c => c.windowRatio
  | _ => none

/-- The profile that the node asks for. -/
def profile? (n : Node) : Option ProfileName :=
  match n.kind with
  | .generate g => some g.profile
  | _ => none

/-- The schema that the node's answer must satisfy. -/
def schema? (n : Node) : Option Json :=
  match n.kind with
  | .generate g => g.schema
  | _ => none

end Node

end Playbook
