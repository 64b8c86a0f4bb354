import Playbook.Definition

/-! # Printed playbooks

A playbook as an indented text: its parameters and its start, then every node with what it uses and where
it may lead.
-/

namespace Playbook

namespace Node

/-- What a node uses. -/
def useText (n : Node) : String :=
  match n.kind with
  | .generate g => " profile=" ++ g.profile.name
  | .invokeTool t => " tool=" ++ t.tool
  | .invoke c =>
    " playbook=" ++ c.playbook ++ " mode=" ++
      (match c.mode with
        | .inline => "Inline"
        | .isolated => "Isolated")
  | _ => ""

/-- The lines of a node: a heading and one line for each edge. -/
def outline (n : Node) : List String :=
  ("  - " ++ n.id ++ " (" ++ n.kind.typeName ++ ")" ++ n.useText) ::
    (n.branches.map (fun b => "      when " ++ b.condition.text ++ " -> " ++ b.target) ++
      n.onFailure?.toList.map (fun target => "      on failure -> " ++ target) ++
      (match n.next with
        | some next => ["      -> " ++ next]
        | none => if n.branches.isEmpty then ["      (end)"] else []))

end Node

/-- The lines of a playbook. -/
def Definition.outline (d : Definition) : List String :=
  [d.name] ++ d.graph.description.toList.map (fun text => "  " ++ text) ++
    d.graph.params.map (fun p => "  param " ++ p.name ++ ": " ++ p.description) ++
    ["  start: " ++ d.start] ++ d.nodes.flatMap Node.outline

end Playbook
