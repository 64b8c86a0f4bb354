import Playbook.Json.Printer
import Playbook.Json.Record
import Playbook.Text.Basic

/-! # Messages, agents and usage

What a model is given and what it answers: messages with roles, the identity of the acting agent, the
tier of the model, the context of a prompt, and the number of tokens that a call has used.
-/

namespace Playbook

/-! ## Roles and messages -/

inductive Role where
  | system
  | user
  | assistant
  | tool
  deriving DecidableEq, Repr, Inhabited

namespace Role

def name : Role → String
  | .system => "system"
  | .user => "user"
  | .assistant => "assistant"
  | .tool => "tool"

def ofName? : String → Option Role
  | "system" => some .system
  | "user" => some .user
  | "assistant" => some .assistant
  | "tool" => some .tool
  | _ => none

/-- The role of a stored name; an unknown one counts as a user. -/
def ofName (s : String) : Role := (ofName? s).getD .user

@[simp] theorem ofName?_name (r : Role) : ofName? r.name = some r := by cases r <;> rfl

end Role

/-- One message of a conversation. -/
structure Message where
  role : Role
  content : String
  deriving DecidableEq, Repr, Inhabited

namespace Message

def user (content : String) : Message := ⟨.user, content⟩

def system (content : String) : Message := ⟨.system, content⟩

def toJson (m : Message) : Json := Json.ofFields [("role", .str m.role.name), ("content", .str m.content)]

/-- The canonical text: the role first, then the content. -/
def canonical (m : Message) : String :=
  "\x7b\"role\":" ++ Json.quote m.role.name ++ ",\"content\":" ++ Json.quote m.content ++ "\x7d"

end Message

/-! ## Agents -/

/-- The agent that a run acts for. -/
structure Agent where
  id : String
  name : String
  persona : Option String
  deriving DecidableEq, Repr, Inhabited

namespace Agent

def toJson (a : Agent) : Json :=
  Json.ofFields <| [("id", .str a.id), ("name", .str a.name)] ++
    a.persona.toList.map (fun p => ("persona", .str p))

def ofJson? (v : Json) : Option Agent := do
  let r ← v.record? ["id", "name", "persona"]
  some ⟨← r.required "id" Json.str?, ← r.required "name" Json.str?,
    ← r.optional "persona" Json.str?⟩

end Agent

/-! ## Prompts -/

/-- How capable a model is asked for. -/
inductive Tier where
  | standard
  | light
  deriving DecidableEq, Repr, Inhabited

namespace Tier

def name : Tier → String
  | .standard => "standard"
  | .light => "light"

def ofName? : String → Option Tier
  | "standard" => some .standard
  | "light" => some .light
  | _ => none

end Tier

/-- What a model is shown. -/
structure Context where
  system : String
  messages : List Message
  deriving DecidableEq, Repr, Inhabited

namespace Context

def empty : Context := ⟨"", []⟩

def toJson (c : Context) : Json :=
  Json.ofFields [("system", .str c.system), ("messages", .arr (c.messages.map Message.toJson))]

/-- The canonical text: equal contexts have equal texts. -/
def canonical (c : Context) : String :=
  "\x7b\"system\":" ++ Json.quote c.system ++ ",\"messages\":[" ++
    Text.join "," (c.messages.map Message.canonical) ++ "]\x7d"

end Context

/-- A call of the model. -/
structure Request where
  context : Context
  tier : Tier
  schema : Option Json
  deriving DecidableEq, Repr, Inhabited

def Request.toJson (r : Request) : Json :=
  Json.ofFields <| [("context", r.context.toJson), ("tier", .str r.tier.name)] ++
    r.schema.toList.map (fun s => ("response_schema", s))

/-! ## Answers of the model -/

/-- Tokens that went in and came out. -/
structure Usage where
  input : Nat
  output : Nat
  deriving DecidableEq, Repr, Inhabited

namespace Usage

def zero : Usage := ⟨0, 0⟩

def add (a b : Usage) : Usage := ⟨a.input + b.input, a.output + b.output⟩

def total (u : Usage) : Nat := u.input + u.output

def toJson (u : Usage) : Json :=
  Json.ofFields [("input_tokens", .int u.input), ("output_tokens", .int u.output)]

def ofJson? (v : Json) : Option Usage := do
  let r ← v.record? ["input_tokens", "output_tokens"]
  some ⟨← r.required "input_tokens" Json.toWord?, ← r.required "output_tokens" Json.toWord?⟩

end Usage

/-- What a model answers: free text or a structured value. -/
inductive Output where
  | text (s : String)
  | structured (v : Json)
  deriving DecidableEq, Repr, Inhabited

namespace Output

def value : Output → Json
  | .text s => .str s
  | .structured v => v

def toJson : Output → Json
  | .text s => Json.ofFields [("type", .str "text"), ("value", .str s)]
  | .structured v => Json.ofFields [("type", .str "structured"), ("value", v)]

/-- The names of the two forms, with the reader of each. -/
def form? : String → Option (Json → Option Output)
  | "text" => some (fun v => v.str?.map .text)
  | "structured" => some (fun v => some (.structured v))
  | _ => none

def ofJson? (v : Json) : Option Output := do
  let r ← v.record? ["type", "value"]
  let read ← r.required "type" (Json.choice? form?)
  r.required "value" read

end Output

/-- The result of one call of the model. -/
structure Generation where
  output : Output
  usage : Usage
  deriving DecidableEq, Repr, Inhabited

namespace Generation

def toJson (g : Generation) : Json :=
  Json.ofFields [("output", g.output.toJson), ("usage", g.usage.toJson)]

def ofJson? (v : Json) : Option Generation := do
  let r ← v.record? ["output", "usage"]
  some ⟨← r.required "output" Output.ofJson?, ← r.defaulted "usage" Usage.ofJson? .zero⟩

end Generation

end Playbook
