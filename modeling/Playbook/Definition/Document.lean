import Playbook.Definition
import Playbook.Node.Document
import Playbook.Toml.Parser

/-! # Playbooks as documents

Playbooks are written as values and read from values, from JSON text and from TOML text. Before a
document is read as a whole its nodes are looked through once, so that an unknown kind of node or an
ill-formed condition is reported together with the node that holds it.

Main definitions: `Definition.ofValue`, `Definition.ofJsonText`, `Definition.ofTomlText`,
`Definition.ofFile` and `Definition.toJson`.
-/

namespace Playbook

/-! ## Writing -/

def Param.toJson (p : Param) : Json :=
  Json.ofFields [("name", .str p.name), ("description", .str p.description)]

def Graph.toJson (g : Graph) : Json :=
  Json.ofFields <| [("name", .str g.name), ("start_node", .str g.start),
    ("input_schema", .arr (g.params.map Param.toJson)), ("nodes", .arr (g.nodes.map Node.toJson))] ++
    g.description.toList.map (fun d => ("description", .str d))

/-- A playbook as a document. -/
def Definition.toJson (d : Definition) : Json := d.graph.toJson

/-! ## Reading values -/

def Param.ofJson? (v : Json) : Option Param := do
  let r ← v.record? ["name", "description"]
  some ⟨← r.required "name" Json.str?, ← r.defaulted "description" Json.str? ""⟩

def Graph.ofJson? (v : Json) : Option Graph := do
  let r ← v.record? ["name", "description", "start_node", "input_schema", "nodes"]
  some
    { name := ← r.required "name" Json.str?
      description := ← r.optional "description" Json.str?
      start := ← r.required "start_node" Json.str?
      params := ← r.defaulted "input_schema" (Json.listOf? Param.ofJson?) []
      nodes := ← r.required "nodes" (Json.listOf? Node.ofJson?) }

/-- The first ill-formed condition among the branches of a node document. -/
def branchFault? (playbook id : String) (node : Json) : Option DefinitionError :=
  let branches := ((node.field? "conditional_next").bind Json.arr?).getD []
  branches.findSome? (fun b =>
    (b.field? "when").bind (fun condition =>
      let expr := condition.str?.getD ""
      match Predicate.parse expr with
      | .ok _ => none
      | .error reason => some (.invalidPredicate playbook id expr reason)))

/-- What is wrong with the kind or the conditions of a node document. -/
def nodeDocumentFault? (playbook : String) (index : Nat) (node : Json) : Option DefinitionError :=
  let id := ((node.field? "id").bind Json.str?).getD ("#" ++ toString index)
  match (node.field? "type").bind Json.str? with
  | none => some (.malformed ("playbook '" ++ playbook ++ "': node '" ++ id ++ "' has no type"))
  | some type =>
    if nodeTypes.contains type then branchFault? playbook id node
    else some (.unknownNodeType playbook id type)

/-- Looks through the nodes of a document. -/
def documentFault? (v : Json) : Option DefinitionError :=
  let playbook := ((v.field? "name").bind Json.str?).getD "<unnamed>"
  let nodes := ((v.field? "nodes").bind Json.arr?).getD []
  nodes.zipIdx.findSome? (fun p => nodeDocumentFault? playbook p.2 p.1)

namespace Definition

variable [Schema.Compiler]

/-- Reads a playbook from a value. -/
def ofValue (v : Json) : Except DefinitionError Definition :=
  match documentFault? v with
  | some fault => .error fault
  | none =>
    match Graph.ofJson? v with
    | some g => ofGraph g
    | none => .error (.malformed "a field is missing or has the wrong form")

/-! ## Reading text -/

/-- Reads a playbook from JSON text. -/
def ofJsonText (source : String) : Except DefinitionError Definition :=
  match Json.parse? source with
  | some v => ofValue v
  | none => .error (.malformed "the text is no JSON")

end Definition

mutual

/-- A value whose numbers all have a text; the others become null. -/
def Json.finite : Json → Json
  | .double d => if d.isFinite then .double d else .null
  | .arr items => .arr (finiteItems items)
  | .obj fields => .obj (finiteFields fields)
  | v => v

def finiteItems : List Json → List Json
  | [] => []
  | v :: vs => v.finite :: finiteItems vs

def finiteFields : List (String × Json) → List (String × Json)
  | [] => []
  | (k, v) :: fs => (k, v.finite) :: finiteFields fs

end

namespace Definition

/-- Reads a playbook from TOML text. -/
def ofTomlText [Schema.Compiler] (source : String) : Except DefinitionError Definition :=
  match Toml.parse? source with
  | some v => ofValue v.finite
  | none => .error (.malformed "the text is no TOML")

/-- The extension of a file name: what follows its last point, unless the name starts with it. -/
def extension? (path : String) : Option String :=
  match (Text.split '/' path).getLast? with
  | none => none
  | some name =>
    if name = ".." then none
    else
      match (Text.segments '.' name.toList).reverse with
      | last :: before :: rest =>
        if rest.isEmpty && before.isEmpty then none else some (String.ofList last)
      | _ => none

/-- Reads a playbook from a file, by its extension; without text the file cannot be read. -/
def ofFile [Schema.Compiler] (path : String) (text? : Option String) : Except DefinitionError Definition :=
  match text? with
  | none => .error (.malformed (path ++ ": the file cannot be read"))
  | some source =>
    match extension? path with
    | some "toml" => ofTomlText source
    | some "json" => ofJsonText source
    | _ => .error (.malformed (path ++ ": unsupported extension"))

end Definition

end Playbook
