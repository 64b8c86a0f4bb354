import Playbook.Hierarchy

/-! # Snapshots of hierarchies

A hierarchy without its limits as a value, and back. Restoring gives the default limits.
-/

namespace Playbook

/-! ## Writing -/

def Entry.toJson : Entry → Json
  | .message role content tags =>
    Json.ofFields <| [("kind", .str "message"), ("role", .str role.name), ("content", .str content)] ++
      (if tags.isEmpty then [] else [("tags", .arr (tags.map .str))])
  | .anchor child => Json.ofFields [("kind", .str "anchor"), ("child", .str child)]

def Thread.toJson (t : Thread) : Json :=
  Json.ofFields <|
    [("id", .str t.id), ("parent_id", Json.ofOption .str t.parent), ("depth", .int t.depth),
      ("window_ratio", .double t.windowRatio), ("budget", .int t.budget),
      ("status", .str t.status.name), ("chronicle_summary", Json.ofOption .str t.chronicle),
      ("created_at", .str t.createdAt.text),
      ("completed_at", Json.ofOption (fun at_ => .str at_.text) t.completedAt),
      ("entries", .arr (t.entries.map Entry.toJson))] ++
    t.label.toList.map (fun l => ("label", .str l))

def Hierarchy.toJson (h : Hierarchy) : Json :=
  Json.ofFields
    [("agent_id", .str h.agent), ("root", .str h.root), ("active", .str h.active),
      ("threads", .ofDict (h.threads.mapValues Thread.toJson))]

/-! ## Reading -/

/-- An entry whose kind is known. -/
def Entry.read? (kind : String) (body : Json) : Option Entry :=
  match kind with
  | "message" => do
    let r ← body.record? ["role", "content", "tags"]
    some <| .message (← r.required "role" (Json.taggedChoice? Role.ofName?))
      (← r.required "content" Json.str?) (← r.defaulted "tags" (Json.listOf? Json.str?) [])
  | "anchor" => do
    let r ← body.record? ["child"]
    some <| .anchor (← r.required "child" Json.str?)
  | _ => none

/-- An entry: an object that names its kind, or an array with the kind first. -/
def Entry.ofJson? : Json → Option Entry
  | .obj fields => do
    let kind ← (Fields.get? "kind" fields).bind Json.str?
    Entry.read? kind (.obj fields)
  | .arr (.str kind :: rest) => Entry.read? kind (.arr rest)
  | _ => none

def timeOf? (v : Json) : Option Time := v.str?.bind Time.parse?

def Thread.ofJson? (v : Json) : Option Thread := do
  let r ← v.record? ["id", "parent_id", "depth", "window_ratio", "budget", "status",
    "chronicle_summary", "label", "created_at", "completed_at", "entries"]
  some
    { id := ← r.required "id" Json.str?
      parent := ← r.optionalByName "parent_id" Json.str?
      depth := ← r.required "depth" Json.toWord?
      windowRatio := ← r.required "window_ratio" Json.toDouble?
      budget := ← r.required "budget" Json.toWord?
      status := ← r.required "status" (Json.choice? ThreadStatus.ofName?)
      chronicle := ← r.optionalByName "chronicle_summary" Json.str?
      label := ← r.optional "label" Json.str?
      createdAt := ← r.required "created_at" timeOf?
      completedAt := ← r.optionalByName "completed_at" timeOf?
      entries := ← r.defaulted "entries" (Json.listOf? Entry.ofJson?) [] }

def Hierarchy.ofJson? (v : Json) : Option Hierarchy := do
  let r ← v.record? ["agent_id", "root", "active", "threads"]
  some
    { agent := ← r.required "agent_id" Json.str?
      root := ← r.required "root" Json.str?
      active := ← r.required "active" Json.str?
      threads := ← r.required "threads" (Json.dictOf? Thread.ofJson?)
      limits := .default }

end Playbook
