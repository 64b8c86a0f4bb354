import Playbook.Error
import Playbook.Json.Path
import Playbook.Json.Printer

/-! # The node region

The space of values that the nodes of a playbook see. Its keys are free but for the names that the
system keeps for itself; dotted paths reach into its values.
-/

namespace Playbook

/-- The names that the system keeps for itself. -/
def reservedKeys : List String :=
  ["agent", "history", "environment", "cancel", "usage", "trace", "orchestration", "sessions",
    "thread", "call_depth"]

/-- Whether the first segment of a path is a name of the system. -/
def isReserved (key : String) : Bool := reservedKeys.contains (Text.firstSegment '.' key)

/-- The values that nodes read and write, by key. -/
structure Region where
  values : Dict Json
  deriving DecidableEq, Repr, Inhabited

namespace Region

def empty : Region := ⟨Dict.empty⟩

def get? (r : Region) (key : String) : Option Json := r.values.get? key

def contains (r : Region) (key : String) : Bool := r.values.contains key

/-- Writes a value; a name of the system is refused. -/
def insert (r : Region) (key : String) (value : Json) : Except Error Region :=
  if isReserved key then .error (.reservedKey key) else .ok ⟨r.values.insert key value⟩

/-- A region of arguments, written in the order of their names. -/
def ofArgs (args : Dict Json) : Except Error Region :=
  args.entries.foldlM (fun r p => r.insert p.1 p.2) empty

/-- Follows a dotted path: the first segment is a key, the others reach into its value. -/
def lookup? (r : Region) (path : List Char) : Option Json :=
  match Text.segments '.' path with
  | [] => none
  | root :: rest => (r.get? (String.ofList root)).bind (fun v => v.follow? rest)

end Region

end Playbook
