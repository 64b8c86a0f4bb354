import Playbook.Event
import Playbook.Profile
import Playbook.Registry

/-! # The world of a run

What a run can reach and change. A run talks to a host, whose state is of any type: it asks a model, uses
tools, appends to and recalls from a memory, and delivers text to a surface. Everything it does becomes
visible in the `World`: the hierarchy of sessions, the events, the stream of fragments, the calls of the
host with their results, and the usage and trace of the walk that is going on.

An action is a function of type `Exec`: it changes the world whether it fails or not.
-/

namespace Playbook

/-! ## The host -/

/-- What a call of the host gives back. -/
structure Reply (σ α : Type) where
  result : Except Error α
  /-- Whether the run was cancelled while the call was going on. -/
  cancels : Bool
  host : σ

/-- What a tool is told about its use. -/
structure ToolContext where
  agent : String
  thread : ThreadId
  workingDirectory : String
  deriving DecidableEq, Repr

/-- The collaborators of a run. -/
structure Host (σ : Type) where
  generate : σ → Request → Reply σ Generation
  useTool : σ → ToolContext → String → Json → Reply σ String
  append : σ → MemoryEntry → Reply σ Unit
  recollect : σ → String → Nat → Reply σ (List MemoryEntry)
  deliver : σ → String → String → Reply σ Unit
  /-- Whether the run has been cancelled from elsewhere when so many events have been published. -/
  interrupts : σ → Nat → Bool
  /-- Whether the sessions of an agent could be saved after a run. -/
  keep : σ → Hierarchy → Except Error Unit × σ

/-- A call of the host, with its result. -/
inductive Interaction where
  | generated (request : Request) (result : Except Error Generation)
  | toolUsed (context : ToolContext) (tool : String) (input : Json) (result : Except Error String)
  | appended (entry : MemoryEntry) (result : Except Error Unit)
  | recalled (agent : String) (limit : Nat) (result : Except Error (List MemoryEntry))
  | delivered (agent content : String) (result : Except Error Unit)

namespace Interaction

/-- The request of a call of the model. -/
def request? : Interaction → Option Request
  | .generated request _ => some request
  | _ => none

/-- What a call of the model has used, if it returned a generation. -/
def usage? : Interaction → Option Usage
  | .generated _ (.ok g) => some g.usage
  | _ => none

/-- The entry that was stored. -/
def stored? : Interaction → Option MemoryEntry
  | .appended entry (.ok ()) => some entry
  | _ => none

/-- The text that reached the surface, with its agent. -/
def delivery? : Interaction → Option (String × String)
  | .delivered agent content (.ok ()) => some (agent, content)
  | _ => none

end Interaction

/-! ## What a run leaves behind -/

/-- One dispatched node. -/
structure TraceEntry where
  playbook : String
  node : String
  nodeType : String
  step : Nat
  callDepth : Nat
  deriving DecidableEq, Repr, Inhabited

inductive ContributionKind where
  | emission
  | record
  deriving DecidableEq, Repr

def ContributionKind.name : ContributionKind → String
  | .emission => "emission"
  | .record => "record"

/-- One piece of the output of a run. -/
structure Contribution where
  node : String
  kind : ContributionKind
  content : String
  deriving DecidableEq, Repr

def Contribution.toJson (c : Contribution) : Json :=
  .ofFields [("node_id", .str c.node), ("kind", .str c.kind.name), ("content", .str c.content)]

/-- One item of the stream of a run: emissions as they happen, then one that ends it. -/
inductive Fragment where
  | emission (node content : String)
  | completed (outputs : List Contribution) (usage : Usage)
  | cancelled (outputs : List Contribution)
  | failed (error : String)
  deriving DecidableEq, Repr

namespace Fragment

def isTerminal : Fragment → Bool
  | .emission .. => false
  | _ => true

def toJson : Fragment → Json
  | .emission node content =>
    .ofFields [("type", .str "emission"), ("node_id", .str node), ("content", .str content)]
  | .completed outputs usage =>
    .ofFields [("type", .str "completed"), ("outputs", .arr (outputs.map Contribution.toJson)),
      ("usage", usage.toJson)]
  | .cancelled outputs =>
    .ofFields [("type", .str "cancelled"), ("outputs", .arr (outputs.map Contribution.toJson))]
  | .failed error => .ofFields [("type", .str "failed"), ("error", .str error)]

end Fragment

/-! ## World and actions -/

/-- Everything outside of the walks that a run can change. -/
structure World (σ : Type) where
  host : σ
  hierarchy : Hierarchy
  /-- How many ids have been drawn for threads. -/
  drawn : Nat
  /-- Once cancelled, a run stays so. -/
  cancelled : Bool
  usage : Usage
  trace : List TraceEntry
  events : List Event
  fragments : List Fragment
  interactions : List Interaction

/-- What a walk hands back to its caller in any case: what it has used, and the nodes it has dispatched,
those of its own callees included. -/
structure Ledger where
  usage : Usage
  trace : List TraceEntry
  deriving DecidableEq, Repr

namespace World

variable {σ : Type}

/-- The ledger of the walk that is going on. -/
def ledger (w : World σ) : Ledger := ⟨w.usage, w.trace⟩

def withLedger (w : World σ) (l : Ledger) : World σ := { w with usage := l.usage, trace := l.trace }

/-- Whether a walk that asks here has to stop. Between two questions at least one event is published, so the run may be
cancelled before any of them. -/
def stops (host : Host σ) (w : World σ) : Bool := w.cancelled || host.interrupts w.host w.events.length

/-- The world when this was asked. -/
def polled (host : Host σ) (w : World σ) : World σ := { w with cancelled := w.stops host }

theorem stops_eq_true {host : Host σ} {w : World σ} (h : w.cancelled = true) : w.stops host = true := by
  rw [stops, h, Bool.true_or]

theorem cancelled_of_not_stops {host : Host σ} {w : World σ} (h : w.stops host = false) : w.cancelled = false :=
  (Bool.or_eq_false_iff.1 h).1

/-- A question that is denied changes nothing. -/
theorem polled_of_not_stops {host : Host σ} {w : World σ} (h : w.stops host = false) : w.polled host = w := by
  rw [polled, h, ← cancelled_of_not_stops h]

end World

/-- The world at the start of a run. -/
def World.start {σ : Type} (host : σ) (hierarchy : Hierarchy) (drawn : Nat) (cancelled : Bool) :
    World σ :=
  { host, hierarchy, drawn, cancelled, usage := .zero, trace := [], events := [], fragments := []
    interactions := [] }

/-- An action that may fail. The world changes in both cases. -/
abbrev Exec (σ α : Type) : Type := ExceptT Error (StateM (World σ)) α

namespace Exec

variable {σ α : Type}

/-- Runs an action in a world. -/
def runIn (x : Exec σ α) (w : World σ) : Except Error α × World σ := x w

def ofExcept : Except Error α → Exec σ α
  | .ok a => pure a
  | .error e => throw e

/-- Something to be read off the world. -/
def look (f : World σ → α) : Exec σ α := fun w => (.ok (f w), w)

/-- A change of the world that cannot fail. -/
def change (f : World σ → World σ) : Exec σ Unit := fun w => (.ok (), f w)

/-- An action whose failure is a result. -/
def attempt (x : Exec σ α) : Exec σ (Except Error α) := fun w => (.ok (x w).1, (x w).2)

/-- A called walk. It works on a copy of the ledger, which comes with its result whether it has failed or
not; the ledger of the caller stays as it was. -/
def apart (x : Exec σ α) : Exec σ (Except Error α × Ledger) := fun w =>
  let r := x w
  (.ok (r.1, r.2.ledger), r.2.withLedger w.ledger)

/-- Takes over the ledger of a called walk. -/
def takeOver (l : Ledger) : Exec σ Unit := change fun w => w.withLedger l

/-- Tells the observers. -/
def publish (agent : String) (what : Happening) : Exec σ Unit :=
  change fun w => { w with events := w.events ++ [⟨agent, what⟩] }

/-- Asks whether the run is cancelled. -/
def poll (host : Host σ) : Exec σ Bool := fun w => (.ok (w.stops host), w.polled host)

/-- Calls the host and notes the call. -/
def consult (call : σ → Reply σ α) (note : Except Error α → Interaction) : Exec σ α := fun w =>
  let r := call w.host
  (r.result,
    { w with
      host := r.host
      cancelled := w.cancelled || r.cancels
      interactions := w.interactions ++ [note r.result] })

/-- Changes the hierarchy, or fails and leaves it. -/
def onHierarchy (f : Hierarchy → Except Error Hierarchy) : Exec σ Unit := fun w =>
  match f w.hierarchy with
  | .ok h => (.ok (), { w with hierarchy := h })
  | .error e => (.error e, w)

/-- Aborts sessions and tells which. -/
def aborting (agent : String) (f : Hierarchy → Except Error (Hierarchy × List ThreadId)) :
    Exec σ Unit := fun w =>
  match f w.hierarchy with
  | .ok (h, ids) =>
    (.ok (),
      { w with
        hierarchy := h
        events := w.events ++ ids.map (fun id => ⟨agent, .threadAborted id⟩) })
  | .error e => (.error e, w)

end Exec

/-! ## Engines -/

/-- What does not change from run to run. -/
structure Engine (σ : Type) where
  playbooks : Registry
  config : Config
  host : Host σ
  /-- The schemas to which answers are held. -/
  [schemas : Schema.Compiler]
  /-- The length of a text in tokens. -/
  tokens : String → Nat
  /-- The stream of fresh ids. -/
  supply : Nat → ThreadId
  /-- The reading of the clock. -/
  now : Time
  /-- The directory in which tools work. -/
  workingDirectory : String := "."

/-- The state of one walk through a playbook. -/
structure Frame where
  region : Region
  outputs : List Contribution
  /-- The thread in which the nodes act. -/
  thread : ThreadId
  /-- The sessions that the walk has opened and not yet left, innermost first. A session that was rejected
  leaves a blank, so that the leave which belongs to it does nothing. -/
  sessions : List (Option ThreadId)
  deriving DecidableEq, Repr

namespace Frame

/-- A walk starts with nothing but its arguments. -/
def start (region : Region) (thread : ThreadId) : Frame := ⟨region, [], thread, []⟩

def write (f : Frame) (key : String) (value : Json) : Except Error Frame :=
  (f.region.insert key value).map (fun r => { f with region := r })

def contribute (f : Frame) (c : Contribution) : Frame := { f with outputs := f.outputs ++ [c] }

end Frame

/-- How a walk goes on behind a node. -/
inductive Step where
  /-- By the branches of the node, then by its next node. -/
  | proceed
  | branch (target : String)
  /-- A called playbook was cancelled. -/
  | halt
  deriving DecidableEq, Repr

/-- How a walk has ended. -/
structure WalkEnd where
  frame : Frame
  steps : Nat
  cancelled : Bool
  deriving DecidableEq, Repr

end Playbook
