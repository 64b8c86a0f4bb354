import Playbook.Memory
import Playbook.Json.Printer

/-! # Stored memories

The text in which a memory is kept between sessions, and its reading.
-/

namespace Playbook

namespace MemoryEntry

def toJson (e : MemoryEntry) : Json :=
  .ofFields
    [("agent_id", .str e.agent), ("role", .str e.role), ("content", .str e.content),
      ("tags", .arr (e.tags.map .str)), ("thread_scope", Json.ofOption .str e.thread),
      ("timestamp", .str e.time.text)]

def ofJson? (v : Json) : Option MemoryEntry := do
  let r ← v.record? ["agent_id", "role", "content", "tags", "thread_scope", "timestamp"]
  some
    { agent := ← r.required "agent_id" Json.str?
      role := ← r.required "role" Json.str?
      content := ← r.required "content" Json.str?
      tags := ← r.required "tags" (Json.listOf? Json.str?)
      thread := ← r.optional "thread_scope" Json.str?
      time := ← r.required "timestamp" (fun t => t.str?.bind Time.parse?) }

end MemoryEntry

namespace Memory

/-- The text of a memory. -/
def text (m : Memory) : String := (Json.arr (m.entries.map MemoryEntry.toJson)).compact

/-- The memory that a text holds. -/
def ofText? (s : String) : Option Memory :=
  ((Json.parse? s).bind (Json.listOf? MemoryEntry.ofJson?)).map Memory.mk

end Memory

end Playbook
