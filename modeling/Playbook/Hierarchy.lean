import Playbook.Error
import Playbook.Thread

/-! # Hierarchies of sessions

The sessions of one agent form a tree under its primary session. One of them is active. Entering a
session opens a child of the active one, leaves an anchor in it, and makes the child active; leaving
and aborting close sessions and go back to a parent.

Main definitions: `enter`, `leave`, `abort`, `abortAbove`, `abortRun` and `recordIn` change a hierarchy,
`pathTo` lists the threads from the root to a thread, and `historyView` shows what a reader sees.
-/

namespace Playbook

/-- What bounds the nesting of sessions and the rendering of their anchors. -/
structure Limits where
  maxDepth : Nat
  defaultRatio : Double
  /-- How many messages the anchor of a session shows. -/
  anchorRecent : Nat
  deriving DecidableEq, Repr

namespace Limits

def default : Limits := ⟨3, ⟨0x3FE999999999999A⟩, 4⟩

instance : Inhabited Limits := ⟨default⟩

end Limits

/-- The sessions of one agent. -/
structure Hierarchy where
  agent : String
  root : ThreadId
  active : ThreadId
  threads : Dict Thread
  limits : Limits
  deriving DecidableEq, Repr

namespace Hierarchy

/-- The hierarchy with nothing but a primary session. -/
def new (agent : String) (root : ThreadId) (budget : Nat) (limits : Limits) (now : Time) : Hierarchy :=
  { agent, root, active := root, limits
    threads := Dict.empty.insert root (Thread.primary root budget now) }

instance : Inhabited Hierarchy := ⟨new "" "" 0 .default default⟩

/-! ## Looking at threads -/

def get? (h : Hierarchy) (id : ThreadId) : Option Thread := h.threads.get? id

/-- The thread of this name, which must be there. -/
def require (h : Hierarchy) (id : ThreadId) : Except Error Thread :=
  match h.get? id with
  | some t => .ok t
  | none => .error (.threadNotFound id)

def budget? (h : Hierarchy) (id : ThreadId) : Option Nat := (h.get? id).map (·.budget)

/-- The threads from one upwards to the root. The bound counts the threads. -/
def climb (h : Hierarchy) : Nat → ThreadId → List Thread
  | 0, _ => []
  | n + 1, id =>
    match h.get? id with
    | none => []
    | some t =>
      t :: match t.parent with
        | none => []
        | some p => climb h n p

/-- The threads from the root down to one; none if there is no such thread. -/
def pathTo (h : Hierarchy) (id : ThreadId) : List Thread := (h.climb h.threads.size id).reverse

/-- Whether a thread is another one or lies beneath it. -/
def isWithin (h : Hierarchy) (id ancestor : ThreadId) : Bool :=
  (h.pathTo id).any (fun t => t.id == ancestor)

/-- The children of a thread in the order in which they were entered. -/
def children (h : Hierarchy) (id : ThreadId) : List Thread :=
  match h.get? id with
  | none => []
  | some t => t.anchors.filterMap h.get?

/-- The messages of a thread itself. -/
def transcript (h : Hierarchy) (id : ThreadId) : Except Error (List Message) :=
  (h.require id).map Thread.messages

/-! ## Entering and recording -/

/-- The active thread, if a session may be nested in it. -/
def parentForEntry (h : Hierarchy) : Except Error Thread := do
  let parent ← h.require h.active
  if h.limits.maxDepth ≤ parent.depth then
    .error (.depthExceeded (parent.depth + 1) h.limits.maxDepth)
  else .ok parent

/-- Enters a session under the active one; beyond the depth limit nothing changes. -/
def enter (h : Hierarchy) (id : ThreadId) (ratio : Option Double) (label : Option String) (now : Time) :
    Except Error Hierarchy := do
  -- the parent is fetched again where its anchor is added
  let parent ← h.parentForEntry
  let owner ← h.require parent.id
  let child := Thread.nested id parent (ratio.getD h.limits.defaultRatio) label now
  .ok
    { h with
      active := id
      threads := (h.threads.insert parent.id (owner.push (.anchor id))).insert id child }

/-- Adds a message to a thread. -/
def recordIn (h : Hierarchy) (id : ThreadId) (role : Role) (content : String) (tags : List String) :
    Except Error Hierarchy := do
  let t ← h.require id
  .ok { h with threads := h.threads.insert id (t.push (.message role content tags)) }

/-- Adds a message to the active thread. -/
def record (h : Hierarchy) (role : Role) (content : String) (tags : List String) :
    Except Error Hierarchy :=
  h.recordIn h.active role content tags

/-! ## Closing -/

/-- Completes the active session, which must not be the primary one, and goes back to its parent. -/
def leave (h : Hierarchy) (id : ThreadId) (chronicle : Option String) (now : Time) :
    Except Error Hierarchy := do
  if id != h.active then .error (.threadNotFound (id ++ " is not the active session"))
  else
    let t ← h.require id
    match t.parent with
    | none => .error .noOpenSession
    | some parent =>
      .ok
        { h with
          active := parent
          threads := h.threads.insert id (t.close .completed chronicle now) }

/-- The active threads at or beneath a thread, in the order of their names. -/
def openWithin (h : Hierarchy) (id : ThreadId) : List ThreadId :=
  (h.threads.values.filter (fun t => t.isActive && h.isWithin t.id id)).map (·.id)

/-- Aborts some threads. -/
def closeAborted (threads : Dict Thread) (ids : List ThreadId) (now : Time) : Dict Thread :=
  ids.foldl (fun ts id => ts.modify id (fun t => t.close .aborted none now)) threads

/-- Aborts a nested session and all that is still open beneath it. If the active thread was among them,
the parent of the session becomes active. -/
def abort (h : Hierarchy) (id : ThreadId) (now : Time) : Except Error (Hierarchy × List ThreadId) := do
  let t ← h.require id
  match t.parent with
  | none => .error .noOpenSession
  | some parent =>
    -- both are read off the hierarchy before anything in it is closed
    let ids := h.openWithin id
    let active := if h.isWithin h.active id then parent else h.active
    .ok ({ h with active, threads := closeAborted h.threads ids now }, ids)

/-- Aborts every session on the way from a thread down to the active one. -/
def abortAbove (h : Hierarchy) (mark : ThreadId) (now : Time) :
    Except Error (Hierarchy × List ThreadId) :=
  if h.active = mark then .ok (h, [])
  else
    -- the child of the mark takes every other session on the way with it
    match (h.pathTo h.active).dropWhile (fun t => t.id != mark) with
    | _ :: outermost :: _ => h.abort outermost.id now
    | _ => .ok (h, [])

/-- Aborts after a run that started in a thread has failed or was cancelled: the nearest open thread at
or above it goes, with all that is open beneath. The primary session stays. -/
def abortRun (h : Hierarchy) (mark : ThreadId) (now : Time) :
    Except Error (Hierarchy × List ThreadId) :=
  let nearest := ((h.pathTo mark).reverse.find? Thread.isActive).map (·.id)
  let id := nearest.getD h.root
  -- `abort` refuses the primary session, so there only what is above it goes
  if id = h.root then h.abortAbove id now else h.abort id now

/-! ## What a reader sees -/

/-- The status of a closed or open session in the words of its anchor. -/
def statusText : ThreadStatus → String
  | .active => " in progress]"
  | .aborted => " ended without summary]"
  | .completed => " completed]"

/-- The last `n` items of a list. -/
def lastItems {α : Type} (n : Nat) (l : List α) : List α := l.drop (l.length - n)

/-- How a session looks from outside: its status, its chronicle, and its latest messages. -/
def renderClosed (recent : Nat) (t : Thread) : String :=
  let chronicle := (t.chronicle.map (fun c => "\nChronicle: " ++ c)).getD ""
  let messages := lastItems recent t.messages
  let exchanges :=
    if messages.isEmpty then ""
    else
      "\nRecent exchanges:" ++
        String.join (messages.map (fun m => "\n- " ++ m.role.name ++ ": " ++ m.content))
  "[" ++ t.title ++ statusText t.status ++ chronicle ++ exchanges

/-- The anchor of a session as a reader sees it. From inside the session it is only a pointer. -/
def renderAnchor (h : Hierarchy) (child reader : ThreadId) : String :=
  match h.get? child with
  | none => "[nested session " ++ ThreadId.short child ++ " unavailable]"
  | some t =>
    if h.isWithin reader child then "[" ++ t.title ++ ": current session]"
    else renderClosed h.limits.anchorRecent t

/-- An entry as a reader sees it. -/
def viewEntry (h : Hierarchy) (reader : ThreadId) : Entry → Message
  | .message role content _ => ⟨role, content⟩
  | .anchor child => .system (h.renderAnchor child reader)

/-- The history of a reader: the entries of every thread from the root down to it. -/
def historyView (h : Hierarchy) (reader : ThreadId) : List Message :=
  (h.pathTo reader).flatMap (fun t => t.entries.map (h.viewEntry reader))

end Hierarchy

end Playbook
