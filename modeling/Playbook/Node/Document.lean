import Playbook.Json.Record
import Playbook.Node

/-! # Nodes as documents

How nodes are written in playbook documents and read from them. A node is an object that holds the
fields of its kind next to its own; fields that nobody knows are ignored.
-/

namespace Playbook

/-! ## Writing -/

/-- The field of a value that may be absent. -/
def Json.optionalField {α : Type} (name : String) (write : α → Json) (v : Option α) :
    List (String × Json) :=
  v.toList.map (fun a => (name, write a))

/-- The fields of a kind, its name included. -/
def NodeKind.fields (k : NodeKind) : List (String × Json) :=
  ("type", .str k.typeName) ::
    match k with
    | .generate g =>
      [("profile", .str g.profile.name), ("prompt", .str g.prompt)] ++
        Json.optionalField "response_schema" id g.schema ++ [("output_key", .str g.outputKey)]
    | .invokeTool t =>
      [("tool", .str t.tool), ("args", .ofDict t.args), ("output_key", .str t.outputKey)]
    | .emit content => [("content", .str content)]
    | .reflect content => [("content", .str content)]
    | .record r =>
      [("content", .str r.content), ("tags", .arr (r.tags.map .str))] ++
        Json.optionalField "role" .str r.role
    | .pass => []
    | .invoke c =>
      [("playbook", .str c.playbook), ("args", .ofDict c.args), ("mode", .str c.mode.name),
        ("propagate", .bool c.propagate)] ++
        Json.optionalField "output_key" .str c.outputKey ++
        Json.optionalField "on_failure" .str c.onFailure ++
        Json.optionalField "window_ratio" .double c.windowRatio ++ [("summarize", .bool c.summarize)]
    | .enterSession o =>
      Json.optionalField "window_ratio" .double o.windowRatio ++
        Json.optionalField "label" .str o.label
    | .leaveSession summarize => [("summarize", .bool summarize)]

def Branch.toJson (b : Branch) : Json :=
  Json.ofFields [("when", .str b.condition.text), ("to", .str b.target)]

def Node.toJson (n : Node) : Json :=
  Json.ofFields <| [("id", .str n.id)] ++ n.kind.fields ++ Json.optionalField "next" .str n.next ++
    (if n.branches.isEmpty then []
     else [("conditional_next", .arr (n.branches.map Branch.toJson))])

/-! ## Reading -/

/-- The kind of this name with the fields of a record. -/
def NodeKind.read? (type : String) (body : Json) : Option NodeKind :=
  match type with
  | "generate" => do
    let r ← body.record? ["profile", "prompt", "response_schema", "output_key"]
    some <| .generate
      ⟨← r.required "profile" (Json.taggedChoice? ProfileName.ofName?), ← r.required "prompt" Json.str?,
        ← r.optional "response_schema" some,
        ← r.defaulted "output_key" Json.str? defaultOutputKey⟩
  | "invoke_tool" => do
    let r ← body.record? ["tool", "args", "output_key"]
    some <| .invokeTool
      ⟨← r.required "tool" Json.str?, ← r.defaulted "args" (Json.dictOf? some) Dict.empty,
        ← r.defaulted "output_key" Json.str? defaultOutputKey⟩
  | "emit" => do
    let r ← body.record? ["content"]
    some <| .emit (← r.required "content" Json.str?)
  | "reflect" => do
    let r ← body.record? ["content"]
    some <| .reflect (← r.required "content" Json.str?)
  | "record" => do
    let r ← body.record? ["content", "tags", "role"]
    some <| .record
      ⟨← r.required "content" Json.str?, ← r.defaulted "tags" (Json.listOf? Json.str?) [],
        ← r.optional "role" Json.str?⟩
  | "pass" => do
    let _ ← body.record? []
    some .pass
  | "invoke" => do
    let r ← body.record? ["playbook", "args", "mode", "propagate", "output_key", "on_failure",
      "window_ratio", "summarize"]
    some <| .invoke
      { playbook := ← r.required "playbook" Json.str?
        args := ← r.defaulted "args" (Json.dictOf? some) Dict.empty
        mode := ← r.defaulted "mode" (Json.taggedChoice? CallMode.ofName?) .inline
        propagate := ← r.defaulted "propagate" Json.toBool? false
        outputKey := ← r.optional "output_key" Json.str?
        onFailure := ← r.optional "on_failure" Json.str?
        windowRatio := ← r.optional "window_ratio" Json.toDouble?
        summarize := ← r.defaulted "summarize" Json.toBool? true }
  | "enter_session" => do
    let r ← body.record? ["window_ratio", "label"]
    some <| .enterSession
      ⟨← r.optional "window_ratio" Json.toDouble?, ← r.optional "label" Json.str?⟩
  | "leave_session" => do
    let r ← body.record? ["summarize"]
    some <| .leaveSession (← r.defaulted "summarize" Json.toBool? true)
  | _ => none

/-- A kind on its own: an object that names it, or an array with its name first. -/
def NodeKind.ofJson? : Json → Option NodeKind
  | .obj fields => do
    let type ← (Fields.get? "type" fields).bind Json.str?
    NodeKind.read? type (.obj fields)
  | .arr (.str type :: rest) => NodeKind.read? type (.arr rest)
  | _ => none

/-- The name of a node's kind; a position in the list of names stands for the name. -/
def nodeTypeOf? : Json → Option String
  | .str s => some s
  | .int n => if 0 ≤ n then nodeTypes[n.toNat]? else none
  | _ => none

def Branch.ofJson? (v : Json) : Option Branch := do
  let r ← v.record? ["when", "to"]
  let expr ← r.required "when" Json.str?
  let condition ← (Predicate.parse expr).toOption
  some ⟨condition, ← r.required "to" Json.str?⟩

def Node.ofJson? : Json → Option Node
  | .obj fields => do
    let r : Record := ⟨fun key => Fields.get? key fields, false⟩
    let id ← r.required "id" Json.str?
    let next ← r.optional "next" Json.str?
    let branches ← r.defaulted "conditional_next" (Json.listOf? Branch.ofJson?) []
    let type ← r.required "type" nodeTypeOf?
    let kind ← NodeKind.read? type (.obj fields)
    some ⟨id, kind, next, branches⟩
  | _ => none

end Playbook
