import Playbook.Error
import Playbook.Json.Parser
import Playbook.Json.Path
import Playbook.Json.Printer
import Playbook.Json.Record
import Playbook.Time

/-! # Tools

Named callables that playbooks may use. A tool answers with text, or with an error, or not in time; what
it answers is stored as the value that the text denotes, or as the text itself.
-/

namespace Playbook

/-- How a tool answers. -/
inductive ToolReply where
  | success (content : String)
  | failure (content : String)
  /-- The tool rejects its input, or fails in another way of its own. -/
  | error (cause : Error)
  /-- The tool gives no answer in time. -/
  | silence
  deriving DecidableEq, Repr

/-- A tool. -/
structure Tool where
  name : String
  description : String
  inputSchema : Json
  /-- How long an answer may take. -/
  timeout : Nat
  /-- Whether a call also cancels the run. -/
  interrupts : Bool
  reply : Json → ToolReply

/-- The value of a tool's answer: the value that the text denotes, else the text. -/
def toolValue (content : String) : Json := (Json.parse? content).getD (.str content)

/-! ## Built-in tools -/

namespace Tool

/-- Looks up a path in a value or in the value that a text denotes. -/
def queryReply (input : Json) : ToolReply :=
  let opened := do
    let r ← input.record? ["json", "path"]
    some (← r.required "json" some, ← r.required "path" Json.str?)
  match opened with
  | none => .error (.toolValidation "a value and a path are expected")
  | some (.str raw, path) =>
    match Json.parse? raw with
    | some v => .success (v.query path).compact
    | none => .error (.toolValidation "Invalid JSON: the text denotes no value")
  | some (v, path) => .success (v.query path).compact

def jsonQuery : Tool :=
  { name := "json_query"
    description := "Query a JSON value by dot-notation path (e.g. 'foo.bar[0].baz')."
    inputSchema := .ofFields
      [("type", .str "object"),
        ("properties", .ofFields
          [("json", .ofFields [("description", .str "JSON value (or JSON string) to query")]),
            ("path", .ofFields
              [("type", .str "string"),
                ("description", .str "Dot-notation path (e.g. 'items[0].name')")])]),
        ("required", .arr [.str "json", .str "path"])]
    timeout := 30
    interrupts := false
    reply := queryReply }

/-- Tells the time. -/
def now (time : Time) : Tool :=
  { name := "now"
    description := "Return the current UTC time as RFC 3339 plus a unix timestamp."
    inputSchema := .ofFields [("type", .str "object"), ("properties", .ofFields [])]
    timeout := 30
    interrupts := false
    reply := fun _ =>
      .success (Json.ofFields [("rfc3339", .str time.text), ("unix", .int time.seconds)]).compact }

end Tool

/-! ## Collections -/

/-- Tools by name. -/
structure Toolbox where
  tools : Dict Tool

namespace Toolbox

def empty : Toolbox := ⟨Dict.empty⟩

/-- Adds a tool in place of the one that had its name. -/
def insert (b : Toolbox) (t : Tool) : Toolbox := ⟨b.tools.insert t.name t⟩

def erase (b : Toolbox) (name : String) : Toolbox := ⟨b.tools.erase name⟩

def get? (b : Toolbox) (name : String) : Option Tool := b.tools.get? name

def names (b : Toolbox) : List String := b.tools.keys

/-- The tools that are always there. -/
def builtin (time : Time) : Toolbox := (empty.insert Tool.jsonQuery).insert (Tool.now time)

/-- What the tools are for, in the order of their names. -/
def definitions (b : Toolbox) : Json :=
  .arr (b.tools.values.map (fun t => .ofFields
    [("name", .str t.name), ("description", .str t.description), ("input_schema", t.inputSchema)]))

/-- Calls a tool. An unknown name, a failure and a lack of answer are errors. -/
def execute (b : Toolbox) (name : String) (input : Json) : Except Error String :=
  match b.get? name with
  | none => .error (.toolNotFound name)
  | some t =>
    match t.reply input with
    | .success content => .ok content
    | .failure content => .error (.toolExecution name content)
    | .error cause => .error cause
    | .silence => .error (.toolTimeout name t.timeout)

end Toolbox

end Playbook
