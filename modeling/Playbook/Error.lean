import Playbook.Number.Shortest
import Playbook.Text.Basic

/-! # What can go wrong

Errors are causes; each kind of cause has one function that words it. `DefinitionError` says why a
playbook is refused when it is loaded, `Error` why an operation of a running system fails.
-/

namespace Playbook

/-! ## Causes inside a definition -/

/-- Why an expression is no condition. -/
inductive PredicateError where
  | emptyExpression
  | missingValue
  | notAKey (key : String)
  | badLiteral
  deriving DecidableEq, Repr

def PredicateError.message : PredicateError → String
  | .emptyExpression => "empty expression"
  | .missingValue => "missing comparison value"
  | .notAKey key => "'" ++ key ++ "' is not a key"
  | .badLiteral => "the quoted value is ill-formed"

/-- How supplied arguments differ from declared parameters. -/
inductive ArgumentError where
  | unknown (names : List String)
  | missing (names : List String)
  deriving DecidableEq, Repr

def ArgumentError.message : ArgumentError → String
  | .unknown names => "unknown argument(s): " ++ Text.join ", " names
  | .missing names => "missing argument(s): " ++ Text.join ", " names

/-- Why a playbook is refused. -/
inductive DefinitionError where
  | malformed (reason : String)
  | empty (playbook : String)
  | missingStart (playbook node : String)
  | duplicateNode (playbook node : String)
  | missingTarget (playbook source target : String)
  | reservedKey (playbook node key : String)
  | duplicateParam (playbook param : String)
  | invalidPredicate (playbook node expr : String) (reason : PredicateError)
  | unknownNodeType (playbook node nodeType : String)
  | invalidSchema (playbook node reason : String)
  | invalidWindowRatio (playbook node : String) (ratio : Double)
  | unknownCallee (playbook node callee : String)
  | argumentMismatch (playbook node callee : String) (reason : ArgumentError)
  | duplicatePlaybook (name : String)
  deriving DecidableEq, Repr

namespace DefinitionError

def atPlaybook (playbook : String) : String := "playbook '" ++ playbook ++ "'"

def atNode (playbook node : String) : String :=
  atPlaybook playbook ++ ": node '" ++ node ++ "'"

def message : DefinitionError → String
  | .malformed reason => "playbook document could not be parsed: " ++ reason
  | .empty p => atPlaybook p ++ " has no nodes"
  | .missingStart p n => atPlaybook p ++ ": start node '" ++ n ++ "' does not exist"
  | .duplicateNode p n => atPlaybook p ++ ": duplicate node id '" ++ n ++ "'"
  | .missingTarget p source target =>
    atNode p source ++ " transitions to missing node '" ++ target ++ "'"
  | .reservedKey p n key => atNode p n ++ " uses reserved system key '" ++ key ++ "'"
  | .duplicateParam p param =>
    atPlaybook p ++ ": input parameter '" ++ param ++ "' is declared twice"
  | .invalidPredicate p n expr reason =>
    atNode p n ++ " has an invalid predicate '" ++ expr ++ "': " ++ reason.message
  | .unknownNodeType p n t => atNode p n ++ " has unknown type '" ++ t ++ "'"
  | .invalidSchema p n reason => atNode p n ++ " declares an invalid response schema: " ++ reason
  | .invalidWindowRatio p n ratio =>
    atNode p n ++ " window ratio " ++ Layout.message.text ratio ++ " is outside (0, 1]"
  | .unknownCallee p n callee => atNode p n ++ " invokes unknown playbook '" ++ callee ++ "'"
  | .argumentMismatch p n callee reason =>
    atNode p n ++ " calls '" ++ callee ++ "' with mismatched arguments: " ++ reason.message
  | .duplicatePlaybook name => "duplicate playbook name '" ++ name ++ "'"

end DefinitionError

/-! ## Causes while running -/

/-- Why an operation fails. -/
inductive Error where
  | definition (cause : DefinitionError)
  | playbookNotFound (name : String)
  | nodeNotFound (playbook node : String)
  | depthExceeded (depth maxDepth : Nat)
  | noOpenSession
  | threadNotFound (what : String)
  | modelRequest (reason : String)
  | schemaViolation (reason : String)
  | toolNotFound (name : String)
  | toolExecution (tool reason : String)
  | toolTimeout (tool : String) (seconds : Nat)
  | toolValidation (reason : String)
  | missingVariable (path : String)
  | reservedKey (key : String)
  | argumentMismatch (playbook : String) (reason : ArgumentError)
  | stepLimitExceeded (limit : Nat)
  | callDepthExceeded (limit : Nat)
  | memory (reason : String)
  | surface (reason : String)
  | config (reason : String)
  | configNotFound (path : String)
  | database (reason : String)
  | io (reason : String)
  | json (reason : String)
  deriving DecidableEq, Repr

namespace Error

def message : Error → String
  | .definition cause => "Invalid playbook: " ++ cause.message
  | .playbookNotFound name => "Playbook not found: " ++ name
  | .nodeNotFound p n => "Node '" ++ n ++ "' not found in playbook '" ++ p ++ "'"
  | .depthExceeded depth maxDepth =>
    "Nested session rejected: depth " ++ toString depth ++ " would exceed max depth " ++
      toString maxDepth
  | .noOpenSession => "No nested session to leave"
  | .threadNotFound what => "Thread not found: " ++ what
  | .modelRequest reason => "Model request failed: " ++ reason
  | .schemaViolation reason => "Structured output violates response schema: " ++ reason
  | .toolNotFound name => "Tool not found: " ++ name
  | .toolExecution tool reason => "Tool execution failed: " ++ tool ++ ": " ++ reason
  | .toolTimeout tool seconds => "Tool timeout after " ++ toString seconds ++ "s: " ++ tool
  | .toolValidation reason => "Tool input validation failed: " ++ reason
  | .missingVariable path => "Undefined variable '" ++ path ++ "' in template"
  | .reservedKey key => "Key '" ++ key ++ "' is reserved for the system region"
  | .argumentMismatch p reason =>
    "Argument mismatch calling '" ++ p ++ "': " ++ reason.message
  | .stepLimitExceeded limit => "Run exceeded max steps (" ++ toString limit ++ ")"
  | .callDepthExceeded limit =>
    "Sub-workflow call depth exceeded (" ++ toString limit ++ ")"
  | .memory reason => "Memory store error: " ++ reason
  | .surface reason => "Surface delivery failed: " ++ reason
  | .config reason => "Config error: " ++ reason
  | .configNotFound path => "Config file not found: " ++ path
  | .database reason => "Database error: " ++ reason
  | .io reason => "I/O error: " ++ reason
  | .json reason => "JSON error: " ++ reason

/-- Depth and session errors reject one operation; the run carries on. -/
def isRejection : Error → Bool
  | .depthExceeded .. => true
  | .noOpenSession => true
  | _ => false

end Error

end Playbook
