import Playbook.Hierarchy.Snapshot
import Playbook.Run.Outcome

/-! # Sessions of many agents

Each agent has a hierarchy of its own, which lives on between runs. With an archive, a snapshot of it is
saved after every run and restored when the agent is seen for the first time after a restart.

Main definitions: `Station.session` finds, restores or creates a hierarchy, and `Station.run` runs a playbook
for an agent and saves the hierarchy, whatever the outcome.
-/

namespace Playbook

/-! ## Archives -/

/-- A saved hierarchy. -/
structure Snapshot where
  text : String
  threads : Nat
  savedAt : Time
  deriving DecidableEq, Repr

/-- The latest snapshot of each agent, the one saved last in front. -/
structure Archive where
  rows : List (String × Snapshot)
  deriving DecidableEq, Repr

namespace Archive

def empty : Archive := ⟨[]⟩

def get? (a : Archive) (agent : String) : Option Snapshot :=
  (a.rows.find? (fun r => r.1 == agent)).map (·.2)

/-- Removes the snapshot of an agent. -/
def delete (a : Archive) (agent : String) : Archive := ⟨a.rows.filter (fun r => r.1 != agent)⟩

/-- Saves a hierarchy in place of what its agent had. -/
def save (a : Archive) (h : Hierarchy) (now : Time) : Archive :=
  ⟨(h.agent, ⟨h.toJson.compact, h.threads.size, now⟩) :: (a.delete h.agent).rows⟩

/-- Restores the hierarchy of an agent; limits are not saved with it. -/
def load (a : Archive) (agent : String) (limits : Limits) : Except Error (Option Hierarchy) :=
  match a.get? agent with
  | none => .ok none
  | some snapshot =>
    match (Json.parse? snapshot.text).bind Hierarchy.ofJson? with
    | some h => .ok (some { h with limits })
    | none => .error (.json "the snapshot is no hierarchy")

end Archive

/-! ## Live sessions -/

/-- The hierarchies of all agents. -/
structure Sessions where
  live : Dict Hierarchy
  archive : Option Archive
  /-- The window of a primary session in tokens. -/
  rootBudget : Nat
  limits : Limits
  deriving DecidableEq, Repr

namespace Sessions

def new (c : ThreadConfig) (archive : Option Archive) : Sessions :=
  ⟨Dict.empty, archive, c.rootTokens, c.limits⟩

def agents (s : Sessions) : List String := s.live.keys

/-- The hierarchy that an agent has once it is needed, and whether it takes the fresh id. -/
def hierarchy (s : Sessions) (agent : String) (fresh : ThreadId) (now : Time) :
    Except Error (Hierarchy × Bool) := do
  match s.live.get? agent with
  | some h => .ok (h, false)
  | none =>
    -- a snapshot that cannot be read is an error: a new hierarchy would be saved over it
    match ← (s.archive.map (fun a => a.load agent s.limits)).getD (.ok none) with
    | some h => .ok (h, false)
    | none => .ok (.new agent fresh s.rootBudget s.limits now, true)

/-- Keeps the hierarchy of an agent. -/
def put (s : Sessions) (agent : String) (h : Hierarchy) : Sessions :=
  { s with live := s.live.insert agent h }

/-- Saves a hierarchy, if there is an archive. -/
def save (s : Sessions) (h : Hierarchy) (now : Time) : Sessions :=
  { s with archive := s.archive.map (·.save h now) }

end Sessions

/-! ## Runs one after the other -/

/-- What stays between runs. -/
structure Station (σ : Type) where
  sessions : Sessions
  host : σ
  /-- How many ids have been drawn for threads. -/
  drawn : Nat

/-- What is known of a run when it is over. -/
structure Report where
  result : Except Error Outcome
  events : List Event
  /-- The stream of the run: its emissions and the fragment that ends it. -/
  stream : List Fragment
  interactions : List Interaction

namespace Station

variable {σ : Type}

/-- Finds, restores or creates the hierarchy of an agent. -/
def session (e : Engine σ) (s : Station σ) (agent : String) : Except Error (Station σ × Hierarchy) := do
  let (h, isNew) ← s.sessions.hierarchy agent (e.supply s.drawn) e.now
  .ok ({ s with
    sessions := s.sessions.put agent h
    drawn := if isNew then s.drawn + 1 else s.drawn }, h)

/-- Saves a hierarchy, if there is an archive. What was saved before stays if this fails. -/
def save (e : Engine σ) (s : Station σ) (h : Hierarchy) : Except Error Unit × Station σ :=
  if s.sessions.archive.isNone then (.ok (), s)
  else
    match e.host.keep s.host h with
    | (.ok (), host) => (.ok (), { s with sessions := s.sessions.save h e.now, host })
    | (.error cause, host) => (.error cause, { s with host })

/-- What is live does not depend on what could be saved. -/
theorem live_save (e : Engine σ) (s : Station σ) (h : Hierarchy) :
    (s.save e h).2.sessions.live = s.sessions.live := by
  unfold save
  split
  · rfl
  · split <;> rfl

/-- A run whose sessions could not be saved is no success. -/
def concluded (result : Except Error Outcome) (saved : Except Error Unit) : Except Error Outcome := do
  let outcome ← result
  saved
  .ok outcome

theorem concluded_ok (result : Except Error Outcome) : concluded result (.ok ()) = result := by
  cases result <;> rfl

/-- Runs a playbook for an agent, and saves its hierarchy afterwards, whatever the outcome. -/
def run (e : Engine σ) (s : Station σ) (caller : Caller) (name : String) (args : Dict Json)
    (cancelled : Bool) : Station σ × Report :=
  match s.session e caller.agent.id with
  | .error cause => (s, ⟨.error cause, [], [.ending (.error cause)], []⟩)
  | .ok (s, h) =>
    let (result, w) := (e.run caller name args).runIn (.start s.host h s.drawn cancelled)
    let left : Station σ :=
      { sessions := s.sessions.put caller.agent.id w.hierarchy, host := w.host, drawn := w.drawn }
    let (saved, s) := left.save e w.hierarchy
    let result := concluded result saved
    (s, ⟨result, w.events, w.fragments ++ [.ending result], w.interactions⟩)

theorem run_of_session {e : Engine σ} {s s' s'' : Station σ} {caller : Caller} {h : Hierarchy}
    (hs : s.session e caller.agent.id = .ok (s', h)) {name : String} {args : Dict Json} {cancelled : Bool}
    {result : Except Error Outcome} {w : World σ}
    (hrun : (e.run caller name args).runIn (.start s'.host h s'.drawn cancelled) = (result, w))
    {saved : Except Error Unit}
    (hsave : save e ⟨s'.sessions.put caller.agent.id w.hierarchy, w.host, w.drawn⟩ w.hierarchy = (saved, s'')) :
    s.run e caller name args cancelled =
      (s'', ⟨concluded result saved, w.events, w.fragments ++ [.ending (concluded result saved)], w.interactions⟩) := by
  rw [run, hs]
  simp only [hrun, hsave]

theorem run_of_session_error {e : Engine σ} {s : Station σ} {caller : Caller} {cause : Error}
    (hs : s.session e caller.agent.id = .error cause) (name : String) (args : Dict Json)
    (cancelled : Bool) :
    s.run e caller name args cancelled = (s, ⟨.error cause, [], [.ending (.error cause)], []⟩) := by
  rw [run, hs]

/-- Starts again with nothing but the archive. -/
def restart (e : Engine σ) (s : Station σ) : Station σ :=
  { s with sessions := .new e.config.threads s.sessions.archive }

end Station

end Playbook
