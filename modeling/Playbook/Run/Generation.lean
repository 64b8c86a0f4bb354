import Playbook.Run.World

/-! # Asking the model

A prompt goes to the model in the context of its profile. The answer counts towards the usage of the run
before it is judged, and must conform to the schema of the node if there is one.
-/

namespace Playbook

/-- The value of an answer. Under a schema a text must denote a value, and the value must be accepted. -/
def conform (S : Schema.Compiler) : Option Json → Output → Except Error Json
  | none, output => .ok output.value
  | some schema, output => do
    let value ←
      match output with
      | .structured v => .ok v
      | .text s =>
        match Json.parse? s with
        | some v => .ok v
        | none => .error (.schemaViolation "model output is not JSON: the text denotes no value")
    -- the schema is compiled anew for every answer, after the answer has been read
    match S.compile schema with
    | .error reason => .error (.schemaViolation (Schema.complaint ++ ": " ++ reason))
    | .ok check =>
      if check.accepts value then .ok value
      else .error (.schemaViolation (Text.join "; " (check.messages value)))

namespace Engine

variable {σ : Type}

/-- The context of an ordinary reply in a thread. Hosts use it for replies outside of any playbook, and the
profile of conversations for those inside. -/
def replyContext (e : Engine σ) (caller : Caller) (thread : ThreadId) : Exec σ Context := do
  let profile := e.config.profile .conversation
  let limit := e.config.memory.recallLimit
  let longTerm ←
    if profile.longTermMemory then
      Exec.consult (fun s => e.host.recollect s caller.agent.id limit) (.recalled caller.agent.id limit)
    else pure []
  Exec.look fun w => profile.replyContext e.tokens caller w.hierarchy thread longTerm

/-- The context of a profile. -/
def context (e : Engine σ) (caller : Caller) (name : ProfileName) (thread : ThreadId) :
    Exec σ Context :=
  match (e.config.profile name).history with
  | .full => e.replyContext caller thread
  | .recent n => Exec.look fun w => Profile.recentContext n caller w.hierarchy thread
  | .none => pure .empty

/-- Asks the model: the prompt is the last message of the context. -/
def ask (e : Engine σ) (caller : Caller) (name : ProfileName) (prompt : String)
    (schema : Option Json) (thread : ThreadId) : Exec σ Json := do
  let context ← e.context caller name thread
  let request : Request :=
    { context := { context with messages := context.messages ++ [Message.user prompt] }
      tier := (e.config.profile name).tier
      schema }
  let g ← Exec.consult (fun s => e.host.generate s request) (.generated request)
  -- an answer that does not conform has been paid for as well
  Exec.change fun w => { w with usage := w.usage.add g.usage }
  Exec.publish caller.agent.id (.usageUpdate g.usage)
  Exec.ofExcept (conform e.schemas schema g.output)

end Engine

end Playbook
