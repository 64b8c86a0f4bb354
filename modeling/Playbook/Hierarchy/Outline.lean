import Playbook.Hierarchy
import Playbook.Text.Truncation

/-! # Printed hierarchies

A hierarchy as an indented text: each thread has a header, and beneath it stand its messages and the
sessions nested in it, in the order of its entries. A nested session is shown twice: as its anchor looks to
a reader in the primary session, and as a thread of its own.
-/

namespace Playbook

/-- A line of a printed hierarchy. -/
inductive OutlineLine where
  | header (thread : Thread) (isActive : Bool)
  | message (depth : Nat) (message : Message)
  | anchor (depth : Nat) (text : String)
  deriving DecidableEq, Repr

namespace OutlineLine

/-- The most bytes of a message that a line holds. -/
def contentLimit : Nat := 100

def indent (depth : Nat) : String := String.join (List.replicate depth "  ")

def text : OutlineLine → String
  | .header t isActive =>
    indent t.depth ++ ThreadId.short t.id ++ " [" ++ t.status.name ++ "] depth=" ++
      toString t.depth ++ " budget=" ++ toString t.budget ++ (if isActive then " *" else "")
  | .message depth m =>
    indent depth ++ "  " ++ m.role.name ++ ": " ++ Text.truncated contentLimit m.content
  | .anchor depth line => indent depth ++ "  | " ++ line

end OutlineLine

namespace Hierarchy

/-- The lines of a thread and of all that is nested in it, at most as deep as the bound. -/
def outlineFrom (h : Hierarchy) : Nat → ThreadId → List OutlineLine
  | 0, _ => []
  | bound + 1, id =>
    match h.get? id with
    | none => []
    | some t =>
      .header t (h.active == id) :: t.entries.flatMap (fun e =>
        match e with
        | .message role content _ => [.message t.depth ⟨role, content⟩]
        | .anchor child =>
          (Text.lines (h.renderAnchor child h.root)).map (.anchor t.depth) ++
            outlineFrom h bound child)

/-- The lines of a whole hierarchy. No nesting is deeper than the number of threads. -/
def outline (h : Hierarchy) : List OutlineLine := h.outlineFrom h.threads.size h.root

end Hierarchy

end Playbook
