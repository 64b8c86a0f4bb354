import Playbook.Sessions

/-! # Stored archives

The text in which an archive of sessions is kept, and its reading.
-/

namespace Playbook

namespace Archive

def rowToJson (row : String × Snapshot) : Json :=
  .ofFields
    [("agent_id", .str row.1), ("snapshot", .str row.2.text), ("threads", .int row.2.threads),
      ("updated_at", .str row.2.savedAt.text)]

def rowOfJson? (v : Json) : Option (String × Snapshot) := do
  let r ← v.record? ["agent_id", "snapshot", "threads", "updated_at"]
  some (← r.required "agent_id" Json.str?,
    { text := ← r.required "snapshot" Json.str?
      threads := ← r.required "threads" Json.toWord?
      savedAt := ← r.required "updated_at" (fun t => t.str?.bind Time.parse?) })

/-- The text of an archive. -/
def text (a : Archive) : String := (Json.arr (a.rows.map rowToJson)).compact

/-- The archive that a text holds. -/
def ofText? (s : String) : Option Archive :=
  ((Json.parse? s).bind (Json.listOf? rowOfJson?)).map Archive.mk

end Archive

end Playbook
