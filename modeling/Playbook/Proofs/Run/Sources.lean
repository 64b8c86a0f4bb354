import Playbook.Proofs.Run.SideBySide
import Playbook.Proofs.Schema

/-! # What a run learns from outside

The memory of an agent outlives its runs, and the environment and the history are supplied from outside. Only a
node that goes on with the conversation reads the first two, and only such a node or a router reads the third.

Main statement: `Engine.sources_of_run` says that runs which do not go on with the conversation do the same
whatever the memory holds and whatever is known of the environment.
-/

namespace Playbook

open Exec (Coupled CoupledAt)

variable {τ : Type}

/-! ## Hosts with a memory -/

/-- What a run has around it besides the entries of its memory. Whether the memory takes an entry, and whether it
answers, is not told by what it holds. -/
structure Company (τ : Type) where
  generate : τ → Request → Reply τ Generation
  useTool : τ → ToolContext → String → Json → Reply τ String
  accept : τ → MemoryEntry → Reply τ Unit
  answer : τ → String → Nat → Reply τ Unit
  deliver : τ → String → String → Reply τ Unit
  interrupts : τ → Nat → Bool
  keep : τ → Hierarchy → Except Error Unit × τ

/-- The state of a host with a memory. -/
structure Remembering (τ : Type) where
  rest : τ
  memory : Memory

namespace Company

/-- A call that does not concern the memory. -/
def aside {α : Type} (call : τ → Reply τ α) (s : Remembering τ) : Reply (Remembering τ) α :=
  ⟨(call s.rest).result, (call s.rest).cancels, { s with rest := (call s.rest).host }⟩

/-- An entry that is taken is kept. -/
def append (S : Company τ) (s : Remembering τ) (entry : MemoryEntry) : Reply (Remembering τ) Unit :=
  let reply := S.accept s.rest entry
  ⟨reply.result, reply.cancels,
    { rest := reply.host
      memory := if reply.result.isOk then s.memory.append entry else s.memory }⟩

/-- The newest entries of the long-term memory. -/
def recollect (S : Company τ) (s : Remembering τ) (agent : String) (limit : Nat) :
    Reply (Remembering τ) (List MemoryEntry) :=
  let reply := S.answer s.rest agent limit
  ⟨reply.result.map fun _ => s.memory.recent agent limit, reply.cancels, { s with rest := reply.host }⟩

/-- The host of a run in this company. -/
def host (S : Company τ) : Host (Remembering τ) where
  generate s request := aside (S.generate · request) s
  useTool s context tool input := aside (S.useTool · context tool input) s
  append := S.append
  recollect := S.recollect
  deliver s agent content := aside (S.deliver · agent content) s
  interrupts s events := S.interrupts s.rest events
  keep s h := ((S.keep s.rest h).1, { s with rest := (S.keep s.rest h).2 })

end Company

/-! ## Runs that do not go on with the conversation -/

/-- The memories may differ, as long as no node asks the model with another profile than these. -/
def Likeness.sources (τ : Type) (allowed : ProfileName → Prop) : Likeness (Remembering τ) :=
  .sameOutputs (fun s is s' is' => s'.rest = s.rest ∧ is' = is)
    (fun n n' => n' = n ∧ ∀ g, n.kind = .generate g → allowed g.profile) fun h => Node.shape_of_eq h.1

namespace Engine

variable {e : Engine (Remembering τ)} {caller caller' : Caller}

theorem blind_sources (S : Company τ) (allowed : ProfileName → Prop) :
    (Likeness.sources τ allowed).Blind S.host := by
  have haside : ∀ {α : Type} (call : τ → Reply τ α) (note : Except Error α → Interaction),
      (Likeness.sources τ allowed).Hides (Company.aside call) (Company.aside call) note note := by
    rintro α call note s is s' _ ⟨hrest, rfl⟩
    refine ⟨?_, ?_, ?_, ?_⟩ <;> simp only [Company.aside, hrest]
  constructor
  · exact fun request => haside _ _
  · exact fun context tool input => haside _ _
  · rintro entry s is s' _ ⟨hrest, rfl⟩
    refine ⟨?_, ?_, ?_, ?_⟩ <;> simp only [Company.host, Company.append, hrest]
  · exact fun agent content => haside _ _
  · rintro s is s' _ ⟨hrest, rfl⟩ events
    simp only [Company.host, hrest]

/-- Only the conversation is shown with what the memory holds and what is known of the environment, and besides it
only the router is shown the history. -/
theorem sees_sources (hagent : caller'.agent = caller.agent) (allowed : ProfileName → Prop) {name : ProfileName}
    (hname : name ≠ .conversation) (hhistory : caller'.history = caller.history ∨ name ≠ .router) :
    (Likeness.sources τ allowed).Sees e caller caller' name := by
  intro thread
  have hworker : (e.config.profile name).history = .none →
      Coupled (World.Alike (Likeness.sources τ allowed)) Eq (e.context caller name thread)
        (e.context caller' name thread) := by
    intro hnone
    rw [context, context, hnone]
    exact .pure rfl
  -- a router is shown the history, and a worker none
  cases name with
  | conversation => exact absurd rfl hname
  | router =>
    obtain ⟨n, hn⟩ := e.config.history_router
    have hsame : ∀ h, Profile.recentContext n caller' h thread = Profile.recentContext n caller h thread := by
      intro h
      rw [Profile.recentContext, Profile.recentContext, hagent, hhistory.resolve_right (absurd rfl)]
    rw [context, context, hn]
    simp only [hsame]
    exact .offHost fun _ _ _ => rfl
  | worker => exact hworker (e.config.history_worker (.inl rfl))
  | workerLight => exact hworker (e.config.history_worker (.inr rfl))

/-- A run reads the memory and the environment only where it goes on with the conversation, and the history only
there and where a router decides. If no playbook has a node with the profile of conversations, then whatever the
settings tune, the run makes the same calls of the host with the same results, changes the world in the same
way, and ends alike or fails of the same cause, whatever the memory holds and whatever the environment is; and
if no playbook has a node with the profile of routers either, also whatever the history is. -/
theorem sources_of_run (S : Company τ) (hhost : e.host = S.host)
    (hconversation : ∀ name d, e.playbooks.get? name = some d →
      ∀ n ∈ d.graph.nodes, n.profile? ≠ some .conversation)
    {history : List Message}
    (hhistory : history = caller.history ∨ ∀ name d, e.playbooks.get? name = some d →
      ∀ n ∈ d.graph.nodes, n.profile? ≠ some .router)
    (environment : Dict String) (name : String) (args : Dict Json) (w : World (Remembering τ))
    (memory : Memory) :
    ∃ memory', e.run { caller with history, environment } name args
        { w with host := { w.host with memory } } =
      ((e.run caller name args w).1,
        { (e.run caller name args w).2 with
          host := { (e.run caller name args w).2.host with memory := memory' } }) := by
  let caller' : Caller := { caller with history, environment }
  -- the profiles that see the same in both runs
  let allowed : ProfileName → Prop := fun name =>
    name ≠ .conversation ∧ (history = caller.history ∨ name ≠ .router)
  have hplaybooks : Registry.Alike (Likeness.sources τ allowed) e.playbooks e.playbooks := by
    refine .refl fun name d hd n hn => ⟨rfl, fun g hg => ?_⟩
    have hprofile : n.profile? = some g.profile := by simp only [Node.profile?, hg]
    refine ⟨fun h => hconversation name d hd n hn (h ▸ hprofile), ?_⟩
    exact hhistory.imp_right fun hrouter h => hrouter name d hd n hn (h ▸ hprofile)
  have hblind : (Likeness.sources τ allowed).Blind e.host := hhost ▸ blind_sources S allowed
  have hsees : ∀ name, allowed name → (Likeness.sources τ allowed).Sees e caller caller' name :=
    fun name h => sees_sources (by rfl) allowed h.1 h.2
  have hstart : World.Alike (Likeness.sources τ allowed) w { w with host := { w.host with memory } } :=
    ⟨{ w.host with memory }, w.interactions, ⟨rfl, rfl⟩, rfl⟩
  have hrun : CoupledAt (World.Alike (Likeness.sources τ allowed)) (Outcome.Alike (Likeness.sources τ allowed))
      (e.run caller name args) (e.run caller' name args) w { w with host := { w.host with memory } } :=
    run_alike rfl hblind hplaybooks (fun _ _ h => congrArg List.length h) hstart fun d _ d' _ h hcalls =>
      h.doAlike h.nodes.1 rfl hblind (fun g hg => hsees g.profile (h.nodes.2 g hg)) (fun _ => .inl rfl) hcalls
  obtain ⟨⟨⟨rest, memory'⟩, _, ⟨hrest, rfl⟩, hworld⟩, hresult⟩ := hrun
  refine ⟨memory', Prod.ext ?_ ?_⟩
  · exact (hresult.mono fun o o' h => (h.eq fun _ _ h => h).symm).eq
  · rw [hworld]
    cases hrest
    rfl

end Engine

/-! ## A diary -/

namespace Diary

/-- The model repeats its instructions. -/
def company : Company Unit where
  generate := fun _ request => ⟨.ok ⟨.text request.context.system, ⟨1, 1⟩⟩, false, ()⟩
  useTool := fun _ _ name _ => ⟨.error (.toolNotFound name), false, ()⟩
  accept := fun _ _ => ⟨.ok (), false, ()⟩
  answer := fun _ _ _ => ⟨.ok (), false, ()⟩
  deliver := fun _ _ _ => ⟨.ok (), false, ()⟩
  interrupts := fun _ _ => false
  keep := fun _ _ => (.ok (), ())

/-- Asks a worker, and says what it has answered. -/
def digest : Definition where
  graph := ⟨"digest", none, "ask", [],
    [⟨"ask", .generate ⟨.worker, "sum it up", none, "answer"⟩, some "say", []⟩,
      ⟨"say", .emit "in short:\x7banswer\x7d", none, []⟩]⟩
  sound := ⟨Schema.truthValues, by decide⟩

def book (d : Definition) : Registry := (Registry.ofDefinitions [d]).toOption.getD .empty

def desk (d : Definition) : Engine (Remembering Unit) where
  playbooks := book d
  config := .default
  host := company.host
  schemas := Schema.truthValues
  tokens := String.length
  supply := Hierarchy.unary
  now := default

def world : World (Remembering Unit) :=
  .start ⟨(), .empty⟩ Outing.hierarchy.hierarchy Outing.hierarchy.drawn false

/-- A memory in which something stands already. -/
def filled : Memory := ⟨[⟨"agent", "agent", "it snowed", [longTermTag], none, default⟩]⟩

theorem settled (d : Definition) : Settled (desk d) world :=
  .of_reachable Hierarchy.unary_injective ⟨"agent", 100, default, _, rfl⟩ _ false

end Diary

/-- A worker neither sees what stands in the diary, nor what was said before, nor what the weather is. -/
theorem Diary.digest_sources :
    ((Diary.desk Diary.digest).run Outing.traveller "digest" .empty Diary.world).1.toOption.map
        (fun o => o.outputs.map (·.content)) = some ["in short:"] ∧
      ∃ memory, (Diary.desk Diary.digest).run
          { Outing.traveller with
            history := [Message.user "hello"], environment := Dict.empty.insert "weather" "rain" }
          "digest" .empty { Diary.world with host := { Diary.world.host with memory := Diary.filled } } =
        (((Diary.desk Diary.digest).run Outing.traveller "digest" .empty Diary.world).1,
          { ((Diary.desk Diary.digest).run Outing.traveller "digest" .empty Diary.world).2 with
            host := { ((Diary.desk Diary.digest).run Outing.traveller "digest" .empty Diary.world).2.host with
              memory } }) := by
  have hprofiles : ∀ profile, profile ≠ .worker → ∀ name d, (Diary.book Diary.digest).get? name = some d →
      ∀ n ∈ d.graph.nodes, n.profile? ≠ some profile := by
    intro profile hprofile name d hd n hn
    have hmem : d ∈ (Diary.book Diary.digest).playbooks.values := Dict.mem_values_iff.2 ⟨name, hd⟩
    cases List.mem_singleton.1 (show d ∈ [Diary.digest] from hmem)
    simp only [Diary.digest, List.mem_cons, List.not_mem_nil, or_false] at hn
    rcases hn with rfl | rfl
    · exact fun h => hprofile (Option.some.inj h).symm
    · rintro ⟨⟩
  refine ⟨by decide +kernel, ?_⟩
  exact Engine.sources_of_run Diary.company rfl (hprofiles .conversation (by decide))
    (.inr (hprofiles .router (by decide))) _ "digest" .empty Diary.world Diary.filled

end Playbook
