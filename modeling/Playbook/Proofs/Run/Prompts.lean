import Playbook.Proofs.Run.Cancellation

/-! # What the model is asked

A node that asks the model shows it the context of its profile, and its own prompt as the last message. For
the profile of conversations this is the context of an ordinary reply: whatever the run has done before and
however deep the node is called, the model sees the conversation as the user would continue it.

Main statements: `Config.history_conversation` says that no tuning shortens a conversation,
`Dispatch.mem_calls_of_generate` which requests a node makes, and `Engine.conversation_of_run` that in every
run a node asks within the conversation as the host would in the thread that is active.
-/

namespace Playbook

variable {σ : Type} {e : Engine σ} {caller : Caller} {w w₁ : World σ} {thread : ThreadId}

/-- No tuning shortens a conversation. -/
theorem Config.history_conversation (c : Config) : (c.profile .conversation).history = .full := by
  rw [profile]
  cases c.profiles.tuning? .conversation <;> rfl

/-- No tuning makes a worker see more than its prompt. -/
theorem Config.history_worker (c : Config) {name : ProfileName} (hname : name = .worker ∨ name = .workerLight) :
    (c.profile name).history = .none := by
  rw [profile]
  rcases hname with rfl | rfl
  · cases c.profiles.tuning? .worker <;> rfl
  · cases c.profiles.tuning? .workerLight <;> rfl

/-- No tuning makes a router see more than the latest messages. -/
theorem Config.history_router (c : Config) : ∃ n, (c.profile .router).history = .recent n := by
  rw [profile]
  rcases c.profiles.tuning? .router with _ | ⟨tier, _ | n⟩
  · exact ⟨6, rfl⟩
  · exact ⟨6, rfl⟩
  · exact ⟨n, rfl⟩

namespace Engine

/-! ## Contexts -/

/-- Inside of a playbook a conversation goes on as outside. -/
theorem context_conversation (e : Engine σ) (caller : Caller) (thread : ThreadId) :
    e.context caller .conversation thread = e.replyContext caller thread := by
  rw [context, e.config.history_conversation]

/-- For a reply the memory may be asked, but not the model. -/
theorem replyContext_asks_nothing (e : Engine σ) (caller : Caller) (thread : ThreadId) (w : World σ) :
    ∃ recalls, (e.replyContext caller thread w).2.interactions = w.interactions ++ recalls ∧
      ∀ i ∈ recalls, i.request? = none := by
  rw [replyContext]
  cases (e.config.profile .conversation).longTermMemory with
  | false => exact ⟨[], (List.append_nil _).symm, List.forall_mem_nil _⟩
  | true =>
    rw [if_pos rfl, Exec.bind_run, Exec.consult_run]
    rcases e.host.recollect w.host caller.agent.id e.config.memory.recallLimit with
      ⟨cause | longTerm, cancels, host⟩
    all_goals
      refine ⟨[_], rfl, ?_⟩
      intro i hi
      rw [List.mem_singleton.1 hi]
      rfl

theorem context_asks_nothing (e : Engine σ) (caller : Caller) (name : ProfileName) (thread : ThreadId)
    (w : World σ) :
    ∃ recalls, (e.context caller name thread w).2.interactions = w.interactions ++ recalls ∧
      ∀ i ∈ recalls, i.request? = none := by
  rw [context]
  cases (e.config.profile name).history with
  | full => exact replyContext_asks_nothing e caller thread w
  | recent n => exact ⟨[], (List.append_nil _).symm, List.forall_mem_nil _⟩
  | none => exact ⟨[], (List.append_nil _).symm, List.forall_mem_nil _⟩

/-! ## Requests -/

/-- What the model is asked with a prompt in a context. -/
def request (e : Engine σ) (name : ProfileName) (context : Context) (prompt : String)
    (schema : Option Json) : Request where
  context := ⟨context.system, context.messages ++ [Message.user prompt]⟩
  tier := (e.config.profile name).tier
  schema := schema

/-- Without a context nothing is asked. -/
theorem ask_of_context_error {name : ProfileName} {cause : Error} (prompt : String) (schema : Option Json)
    (hc : e.context caller name thread w = (.error cause, w₁)) :
    (e.ask caller name prompt schema thread w).2 = w₁ := by
  rw [ask, Exec.bind_run, hc]

/-- In its context a prompt is asked once. -/
theorem ask_of_context {name : ProfileName} {context : Context} (prompt : String) (schema : Option Json)
    (hc : e.context caller name thread w = (.ok context, w₁)) :
    (e.ask caller name prompt schema thread w).2.interactions = w₁.interactions ++
      [.generated (e.request name context prompt schema)
        (e.host.generate w₁.host (e.request name context prompt schema)).result] := by
  rw [ask, Exec.bind_run, hc]
  show ((Exec.consult (fun s => e.host.generate s (e.request name context prompt schema))
    (.generated (e.request name context prompt schema)) >>= fun g => _) w₁).2.interactions = _
  rw [Exec.bind_run, Exec.consult_run]
  rcases e.host.generate w₁.host (e.request name context prompt schema) with ⟨cause | g, cancels, host⟩
  · rfl
  · -- whatever is made of the answer, the host is not called again
    show ((Exec.ofExcept (conform e.schemas schema g.output) : Exec σ Json) _).2.interactions = _
    rw [Exec.ofExcept_world]
    rfl

/-- What is made of the answer asks nothing more. -/
theorem generate_world {g : Generate} {f : Frame} {prompt : String}
    (hp : Template.render f.region g.prompt = .ok prompt) :
    (e.generate caller g f w).2 = (e.ask caller g.profile prompt g.schema f.thread w).2 := by
  rw [generate, hp]
  show ((e.ask caller g.profile prompt g.schema f.thread >>= fun v =>
    Exec.ofExcept (f.write g.outputKey v)) w).2 = _
  rw [Exec.bind_run]
  rcases e.ask caller g.profile prompt g.schema f.thread w with ⟨cause | v, w'⟩
  · rfl
  · exact Exec.ofExcept_world _ w'

end Engine

/-! ## Nodes that ask -/

namespace Dispatch

variable {d : Dispatch σ} {g : Generate}

/-- The calls of a node that asks the model: those for its context, and then its request. -/
theorem calls_of_generate (e : Engine σ) (caller : Caller) (hkind : d.node.kind = .generate g) :
    d.standing.world.interactions ++ d.calls e caller =
      (e.generate caller g d.standing.frame (d.announced caller)).2.interactions := by
  rw [← d.interactions_outcome]
  show (e.dispatch caller (e.level caller d.standing.calls) d.node d.standing.frame
    (d.announced caller)).2.interactions = _
  simp only [Engine.dispatch, hkind]
  rw [Exec.bind_pure_world]

/-- A node asks the model for its prompt, if that can be rendered, in the context of its profile, if there is
one; and it asks nothing else. -/
theorem mem_calls_of_generate (hkind : d.node.kind = .generate g) {request : Request}
    {result : Except Error Generation} :
    .generated request result ∈ d.calls e caller ↔
      ∃ prompt context w₁, Template.render d.standing.frame.region g.prompt = .ok prompt ∧
        e.context caller g.profile d.standing.frame.thread (d.announced caller) = (.ok context, w₁) ∧
        request = e.request g.profile context prompt g.schema ∧
        result = (e.host.generate w₁.host request).result := by
  have hcalls := calls_of_generate e caller hkind
  -- announcing the node has called nothing
  change (d.announced caller).interactions ++ _ = _ at hcalls
  cases hp : Template.render d.standing.frame.region g.prompt with
  | error cause =>
    have hnil : d.calls e caller = [] := by
      refine List.append_cancel_left (hcalls.trans ?_)
      rw [Engine.generate, hp, List.append_nil]
      rfl
    rw [hnil]
    constructor
    · intro hmem
      exact absurd hmem List.not_mem_nil
    · rintro ⟨prompt, _, _, hprompt, _⟩
      cases hprompt
  | ok prompt =>
    obtain ⟨recalls, hrecalls, hquiet⟩ :=
      e.context_asks_nothing caller g.profile d.standing.frame.thread (d.announced caller)
    have hnot : .generated request result ∉ recalls := fun hr => nomatch hquiet _ hr
    rw [Engine.generate_world hp] at hcalls
    rcases hc : e.context caller g.profile d.standing.frame.thread (d.announced caller) with
      ⟨cause | context, w₁⟩
    · rw [hc] at hrecalls
      rw [Engine.ask_of_context_error prompt g.schema hc, hrecalls] at hcalls
      rw [List.append_cancel_left hcalls]
      constructor
      · intro hmem
        exact absurd hmem hnot
      · rintro ⟨_, _, _, _, hcontext, _⟩
        cases hcontext
    · rw [hc] at hrecalls
      rw [Engine.ask_of_context prompt g.schema hc, hrecalls, List.append_assoc] at hcalls
      rw [List.append_cancel_left hcalls, List.mem_append, List.mem_singleton]
      constructor
      · rintro (hmem | hlast)
        · exact absurd hmem hnot
        · cases hlast
          exact ⟨prompt, context, w₁, rfl, rfl, rfl, rfl⟩
      · rintro ⟨prompt', context', w₁', hprompt, hcontext, rfl, rfl⟩
        cases hprompt
        cases hcontext
        exact .inr rfl

end Dispatch

/-! ## Runs -/

namespace Engine

/-- Within a conversation a node asks as the host would. Every request of a node of the run whose profile is that
of conversations consists of the prompt and of what a reply would be built from at that moment, for the agent,
the history and the environment of the run, in the thread that is active then; and where both can be made, the
request is. -/
theorem conversation_of_run (hinj : Function.Injective e.supply) (hs : Settled e w) (caller : Caller)
    (name : String) (args : Dict Json) :
    ∀ d ∈ e.dispatched caller name args w, ∀ g, d.node.kind = .generate g → g.profile = .conversation →
      d.standing.world.interactions ++ d.calls e caller <+:
          (e.run caller name args w).2.interactions ∧
        ∀ request result, .generated request result ∈ d.calls e caller ↔
          ∃ prompt context w₁, Template.render d.standing.frame.region g.prompt = .ok prompt ∧
            e.replyContext caller (d.announced caller).hierarchy.active (d.announced caller) =
              (.ok context, w₁) ∧
            request = ⟨⟨context.system, context.messages ++ [Message.user prompt]⟩,
              (e.config.profile .conversation).tier, g.schema⟩ ∧
            result = (e.host.generate w₁.host request).result := by
  intro d hmem g hkind hprofile
  have hu := upright_of_run hinj hs (mem_dispatched_iff.1 hmem).1
  have hthread : d.standing.frame.thread = (d.announced caller).hierarchy.active := hu.stands.thread
  have hbehind := (interactions_of_dispatched hmem).2
  rw [d.interactions_outcome] at hbehind
  refine ⟨hbehind, ?_⟩
  intro request result
  rw [Dispatch.mem_calls_of_generate hkind, hprofile, hthread, context_conversation]
  rfl

end Engine

/-! ## A conversation in a session of its own -/

namespace Tour

def answer : Node := ⟨"answer", .generate ⟨.conversation, "go on", none, "answer"⟩, none, []⟩

/-- Goes on with the conversation. -/
def reply : Definition where
  graph := ⟨"reply", none, "answer", [], [answer]⟩
  sound := ⟨Schema.truthValues, by decide⟩

def whisper : Node :=
  ⟨"whisper", .invoke ⟨"reply", .empty, .isolated, false, none, none, none, true⟩, none, []⟩

/-- Has the conversation go on in a session of its own. -/
def aside : Definition where
  graph := ⟨"aside", none, "whisper", [], [whisper]⟩
  sound := ⟨Schema.truthValues, by decide⟩

def parlour : Engine Unit :=
  { engine with playbooks := (Registry.ofDefinitions [reply, aside]).toOption.getD .empty }

/-- The walk in the parlour before it whispers. -/
def door : Standing Unit :=
  .start parlour.config.engine.maxCallDepth aside .empty Outing.world.hierarchy.active
    (Outing.world.begun "agent" aside)

/-- The walk that is called then. -/
def seat : Standing Unit := (door.called? parlour Outing.traveller whisper).getD door

end Tour

/-- In the session of a call the model sees the conversation as it is seen from there. -/
theorem Tour.aside_conversation :
    ∃ d ∈ Tour.parlour.dispatched Outing.traveller "aside" .empty Outing.world, d.depth = 1 ∧
      ∃ context w₁ result,
        Tour.parlour.replyContext Outing.traveller (d.announced Outing.traveller).hierarchy.active
          (d.announced Outing.traveller) = (.ok context, w₁) ∧
        .generated ⟨⟨context.system, context.messages ++ [Message.user "go on"]⟩, .standard, none⟩ result ∈
          d.calls Tour.parlour Outing.traveller := by
  have hcalled : Tour.door.called? Tour.parlour Outing.traveller Tour.whisper = some Tour.seat := rfl
  have hdoor : Tour.door.Dispatches Tour.parlour Tour.whisper := ⟨rfl, by decide, rfl⟩
  have hseat : Tour.seat.Dispatches Tour.parlour Tour.answer := ⟨rfl, by decide, rfl⟩
  have hmem : (⟨1, Tour.seat, Tour.answer⟩ : Dispatch Unit) ∈
      Tour.parlour.dispatched Outing.traveller "aside" .empty Outing.world :=
    Engine.mem_dispatched_iff.2
      ⟨⟨Tour.aside, .empty, rfl, .single (.of_called hdoor hcalled)⟩, hseat, by decide +kernel⟩
  refine ⟨_, hmem, rfl, ?_⟩
  have hsettled : Settled Tour.parlour Outing.world :=
    .of_reachable Hierarchy.unary_injective ⟨"agent", 100, default, _, rfl⟩ () false
  have hiff := (Engine.conversation_of_run Hierarchy.unary_injective hsettled Outing.traveller "aside"
    .empty _ hmem _ rfl rfl).2
  refine ⟨_, _, _, rfl, (hiff _ _).2 ⟨"go on", _, _, rfl, rfl, rfl, rfl⟩⟩

end Playbook
