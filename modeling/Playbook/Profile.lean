import Playbook.Config
import Playbook.Memory
import Playbook.Tokens

/-! # Prompt profiles

What a model is shown when a node asks it: a closed set of profiles says which tier is asked and how much
of the conversation, of the long-term memory and of the environment goes into the prompt.

Main definitions: `Profile.replyContext` builds the context of an ordinary reply, trimmed to a window by
`Trim.latest`, and `Profile.recentContext` that of the profiles which see only the latest messages.
-/

namespace Playbook

/-- How much of the conversation a profile shows. -/
inductive HistoryPolicy where
  /-- All of it, trimmed to the window of the thread. -/
  | full
  /-- The latest messages. -/
  | recent (count : Nat)
  | none
  deriving DecidableEq, Repr

/-- What a prompt is made of. -/
structure Profile where
  tier : Tier
  history : HistoryPolicy
  longTermMemory : Bool
  environment : Bool
  deriving DecidableEq, Repr

namespace Profile

/-- The untuned profile of a name. -/
def builtin : ProfileName → Profile
  | .conversation => ⟨.standard, .full, true, true⟩
  | .router => ⟨.light, .recent 6, false, false⟩
  | .worker => ⟨.standard, .none, false, false⟩
  | .workerLight => ⟨.light, .none, false, false⟩

/-- Tuning changes the tier, and the number of messages where the profile counts them. -/
def tuned (p : Profile) : Option Tuning → Profile
  | none => p
  | some t =>
    { p with
      tier := t.tier.getD p.tier
      history :=
        match p.history, t.historyMessages with
        | .recent _, some n => .recent n
        | h, _ => h }

end Profile

/-- The profile of a name under the settings. -/
def Config.profile (c : Config) (name : ProfileName) : Profile :=
  (Profile.builtin name).tuned (c.profiles.tuning? name)

/-! ## Trimming -/

namespace Trim

/-- The tokens of a message, with those of its frame. Totals of tokens are machine words, which start again from zero
where they would grow too large. -/
def messageCost (tokens : String → Nat) (m : Message) : UInt64 := UInt64.ofNat (tokens m.content) + 4

/-- The tokens of messages. -/
def cost (tokens : String → Nat) (ms : List Message) : UInt64 :=
  ms.foldr (fun m n => messageCost tokens m + n) 0

/-- Drops the oldest messages while the total is above the budget. The newest message stays. -/
def dropOldest (tokens : String → Nat) (budget : Nat) : UInt64 → List Message → List Message
  | _, [] => []
  | _, [m] => [m]
  | total, m :: n :: rest =>
    if budget < total.toNat then dropOldest tokens budget (total - messageCost tokens m) (n :: rest)
    else m :: n :: rest

/-- The latest messages that fit into a budget together with what is fixed. -/
def latest (tokens : String → Nat) (fixed budget : Nat) (ms : List Message) : List Message :=
  dropOldest tokens budget (UInt64.ofNat fixed + cost tokens ms) ms

end Trim

/-! ## Contexts -/

/-- What a reply is built from. -/
structure Sources where
  agent : Agent
  /-- The conversation before the thread. -/
  history : List Message
  /-- What the thread sees. -/
  view : List Message
  longTerm : List MemoryEntry
  environment : Dict String
  /-- The window of the thread in tokens. -/
  budget : Nat
  deriving DecidableEq, Repr

namespace Sources

/-- A heading with an item per line; nothing if there are no items. -/
def heading (title : String) (items : List String) : String :=
  if items.isEmpty then "" else "\n\n## " ++ title ++ String.join (items.map (fun i => "\n- " ++ i))

/-- The instructions of a reply. -/
def system (s : Sources) : String :=
  "You are " ++ s.agent.name ++ "." ++ ((s.agent.persona.map (fun p => "\n\n" ++ p)).getD "") ++
    heading "Long-term memory" (s.longTerm.map (·.content)) ++
    heading "Environment" (s.environment.entries.map (fun p => p.1 ++ ": " ++ p.2))

/-- The context of a reply. -/
def assemble (tokens : String → Nat) (s : Sources) : Context :=
  ⟨s.system, Trim.latest tokens (tokens s.system) s.budget (s.history ++ s.view)⟩

end Sources

/-- What the caller of a run knows about the conversation. -/
structure Caller where
  agent : Agent
  history : List Message
  environment : Dict String
  /-- Whether the run orchestrates at top level; its own records are then no output. -/
  orchestration : Bool
  deriving DecidableEq, Repr

namespace Profile

/-- The window of a thread that has none is unbounded. -/
def unbounded : Nat := 0xffffffffffffffff

/-- The context of an ordinary reply in a thread. -/
def replyContext (p : Profile) (tokens : String → Nat) (caller : Caller) (h : Hierarchy)
    (thread : ThreadId) (longTerm : List MemoryEntry) : Context :=
  Sources.assemble tokens
    { agent := caller.agent
      history := caller.history
      view := h.historyView thread
      longTerm
      environment := if p.environment then caller.environment else Dict.empty
      budget := (h.budget? thread).getD unbounded }

/-- The context that decides on the next action from a few messages. -/
def recentContext (count : Nat) (caller : Caller) (h : Hierarchy) (thread : ThreadId) : Context :=
  ⟨"You are " ++ caller.agent.name ++ ". Decide the next action from the recent conversation.",
    Hierarchy.lastItems count (caller.history ++ h.historyView thread)⟩

end Profile

end Playbook
