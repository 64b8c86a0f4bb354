import Playbook.Error
import Playbook.Hierarchy

/-! # Memory

What agents remember: entries with tags, appended in order and never changed. Entries that carry the tag
of the long-term memory are recalled into later conversations.

Main definitions: `recent` lists the newest long-term entries of an agent, each as often as it carries
the tag, and `recentOnce` lists each of them once.
-/

namespace Playbook

/-- The tag of exchanges with the user. -/
def conversationTag : String := "conversation"

/-- The tag of private thoughts. -/
def internalTag : String := "internal"

/-- The tag of what later conversations recall. -/
def longTermTag : String := "memory"

/-- One thing remembered. -/
structure MemoryEntry where
  agent : String
  role : String
  content : String
  tags : List String
  /-- The thread that was active at the time. -/
  thread : Option ThreadId
  time : Time
  deriving DecidableEq, Repr, Inhabited

def MemoryEntry.hasTag (e : MemoryEntry) (tag : String) : Bool := e.tags.contains tag

/-- Everything remembered, oldest first. -/
structure Memory where
  entries : List MemoryEntry
  deriving DecidableEq, Repr, Inhabited

namespace Memory

def empty : Memory := ⟨[]⟩

def append (m : Memory) (e : MemoryEntry) : Memory := ⟨m.entries ++ [e]⟩

def ofAgent (m : Memory) (agent : String) : List MemoryEntry :=
  m.entries.filter (fun e => e.agent == agent)

/-- The newest long-term entries of an agent, oldest first. An entry counts once for each time that it
carries the tag. -/
def recent (m : Memory) (agent : String) (limit : Nat) : List MemoryEntry :=
  Hierarchy.lastItems limit
    ((m.ofAgent agent).flatMap (fun e => List.replicate (e.tags.count longTermTag) e))

/-- The newest long-term entries of an agent, oldest first, each once. -/
def recentOnce (m : Memory) (agent : String) (limit : Nat) : List MemoryEntry :=
  Hierarchy.lastItems limit ((m.ofAgent agent).filter (fun e => e.hasTag longTermTag))

/-- The entries written while a thread was active, oldest first. -/
def inThread (m : Memory) (id : ThreadId) : List MemoryEntry :=
  m.entries.filter (fun e => e.thread == some id)

def tagged (m : Memory) (tag : String) : List MemoryEntry :=
  m.entries.filter (fun e => e.hasTag tag)

end Memory

end Playbook
