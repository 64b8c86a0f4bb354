import Playbook.Message
import Playbook.Text.Basic
import Playbook.Time

/-! # Threads

A thread is one session of an agent: its messages, the anchors of the sessions nested in it, and the
budget of its window. The primary session of an agent is a root; every other thread has a parent.
-/

namespace Playbook

/-- The name of a thread. -/
abbrev ThreadId : Type := String

/-- The beginning of a thread's name, for renderings on one line. -/
def ThreadId.short (id : ThreadId) : String := String.ofList (id.toList.take 8)

inductive ThreadStatus where
  | active
  | completed
  | aborted
  deriving DecidableEq, Repr, Inhabited

namespace ThreadStatus

def name : ThreadStatus → String
  | .active => "active"
  | .completed => "completed"
  | .aborted => "aborted"

def ofName? : String → Option ThreadStatus
  | "active" => some .active
  | "completed" => some .completed
  | "aborted" => some .aborted
  | _ => none

end ThreadStatus

/-- What a thread holds: messages, and anchors in the places where nested sessions were entered. -/
inductive Entry where
  | message (role : Role) (content : String) (tags : List String)
  | anchor (child : ThreadId)
  deriving DecidableEq, Repr

namespace Entry

/-- The message of an entry that is one. -/
def message? : Entry → Option Message
  | .message role content _ => some ⟨role, content⟩
  | .anchor _ => none

/-- The child of an entry that is an anchor. -/
def anchor? : Entry → Option ThreadId
  | .message .. => none
  | .anchor child => some child

end Entry

/-- One session. -/
structure Thread where
  id : ThreadId
  parent : Option ThreadId
  depth : Nat
  windowRatio : Double
  /-- The window in tokens. -/
  budget : Nat
  status : ThreadStatus
  chronicle : Option String
  label : Option String
  createdAt : Time
  completedAt : Option Time
  entries : List Entry
  deriving DecidableEq, Repr

namespace Thread

instance : Inhabited Thread := ⟨⟨"", none, 0, .one, 0, .active, none, none, default, none, []⟩⟩

/-- The primary session of an agent. -/
def primary (id : ThreadId) (budget : Nat) (now : Time) : Thread :=
  { id, parent := none, depth := 0, windowRatio := .one, budget, status := .active, chronicle := none
    label := none, createdAt := now, completedAt := none, entries := [] }

/-- A session nested in another one, with a share of its window. -/
def nested (id : ThreadId) (parent : Thread) (ratio : Double) (label : Option String) (now : Time) :
    Thread :=
  { id, parent := some parent.id, depth := parent.depth + 1, windowRatio := ratio
    budget := (Double.scaleCount (UInt64.ofNat parent.budget) ratio).toNat
    status := .active, chronicle := none, label, createdAt := now, completedAt := none, entries := [] }

def isRoot (t : Thread) : Bool := t.parent.isNone

def isActive (t : Thread) : Bool := t.status == .active

/-- The messages of the thread itself, oldest first. -/
def messages (t : Thread) : List Message := t.entries.filterMap Entry.message?

/-- The sessions anchored in the thread, in the order in which they were entered. -/
def anchors (t : Thread) : List ThreadId := t.entries.filterMap Entry.anchor?

def push (t : Thread) (e : Entry) : Thread := { t with entries := t.entries ++ [e] }

/-- Ends the thread with a status; only a completed one may have a chronicle. -/
def close (t : Thread) (status : ThreadStatus) (chronicle : Option String) (now : Time) : Thread :=
  { t with status, chronicle, completedAt := some now }

/-- How anchors name the thread. -/
def title (t : Thread) : String :=
  match t.label with
  | some label => "nested session " ++ ThreadId.short t.id ++ " (" ++ label ++ ")"
  | none => "nested session " ++ ThreadId.short t.id

end Thread

end Playbook
