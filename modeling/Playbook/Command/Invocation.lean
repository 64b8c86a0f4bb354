import Playbook.Command.Arguments
import Playbook.Json.Path

/-! # Commands

What can be asked on the command line.
-/

namespace Playbook

/-- A playbook that is to be run. -/
structure RunOrder where
  playbook : String
  /-- Arguments as `key=value`. -/
  args : List String
  agent : String
  /-- The name that the agent is known by, if it is not its id. -/
  agentName : Option String
  /-- The file that holds the answers of the model. -/
  script : Option String
  orchestration : Bool
  deriving DecidableEq, Repr

inductive Action where
  | validate (dir : Option String)
  | describe (playbook : String)
  | run (order : RunOrder)
  | threads (agent : Option String)
  | search (query : String) (limit : Nat)
  | config
  deriving DecidableEq, Repr

/-- A command with the path of its configuration. -/
structure Invocation where
  configPath : String
  action : Action
  deriving DecidableEq, Repr

namespace Invocation

/-- A path that is not empty. -/
def path? (s : String) : Option String := if s = "" then none else some s

/-- An optional path, which must not be empty. -/
def optionalPath? : Option String → Option (Option String)
  | none => some none
  | some s => (path? s).map some

def generalOptions : List OptionSpec := [⟨"config", some 'c', true, false⟩]

def runOptions : List OptionSpec :=
  [⟨"arg", none, true, true⟩, ⟨"agent", none, true, false⟩, ⟨"agent-name", none, true, false⟩,
    ⟨"script", none, true, false⟩, ⟨"orchestration", none, false, false⟩]

def runAction (args : List String) : Option Action := do
  let a ← Arguments.parse? runOptions false args
  match a.operands with
  | [playbook] =>
    let script ← optionalPath? (a.value? "script")
    some (.run
      { playbook
        args := a.values "arg"
        agent := (a.value? "agent").getD "default"
        agentName := a.value? "agent-name"
        script
        orchestration := (a.value? "orchestration").isSome })
  | _ => none

def searchAction (args : List String) : Option Action := do
  let a ← Arguments.parse? [⟨"limit", none, true, false⟩] false args
  match a.operands with
  | [query] =>
    let limit ← Json.position? ((a.value? "limit").getD "10").toList
    some (.search query limit)
  | _ => none

/-- The action that some arguments ask for. -/
def action? : List String → Option Action
  | "validate" :: args => do
    let a ← Arguments.parse? [] false args
    match a.operands with
    | [] => some (.validate none)
    | [dir] => (path? dir).map (fun d => .validate (some d))
    | _ => none
  | "show" :: args => do
    let a ← Arguments.parse? [] false args
    match a.operands with
    | [name] => some (.describe name)
    | _ => none
  | "run" :: args => runAction args
  | "threads" :: args => do
    let a ← Arguments.parse? [⟨"agent", none, true, false⟩] false args
    if a.operands.isEmpty then some (.threads (a.value? "agent")) else none
  | "memory" :: args => do
    let a ← Arguments.parse? [] true args
    match a.operands with
    | "search" :: rest => searchAction rest
    | _ => none
  | "config" :: args => do
    let a ← Arguments.parse? [] false args
    if a.operands.isEmpty then some .config else none
  | _ => none

/-- The command of a command line, if it is one. -/
def parse? (args : List String) : Option Invocation := do
  let a ← Arguments.parse? generalOptions true args
  let configPath ← path? ((a.value? "config").getD "trellis.toml")
  let action ← action? a.operands
  some ⟨configPath, action⟩

end Invocation

end Playbook
