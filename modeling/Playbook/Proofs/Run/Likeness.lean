import Playbook.Proofs.Run.Coupled
import Playbook.Proofs.Run.Prompts

/-! # Two runs that are alike

Two runs are walked side by side although something that they depend on differs: what their hosts keep to
themselves, nodes that do something else where nobody sees it, or who takes over their outputs. A `Likeness` says
what may differ, and how the hosts with the calls made so far correspond.

Main statements: `Coupled.offHost` and `Coupled.consult` are the rules for actions on their own, and
`Engine.dispatch_alike` says that a node which calls no playbook does the same in both runs.
-/

namespace Playbook

open Checked (Matches)
open Exec (Coupled CoupledAt)

variable {σ α : Type}

/-! ## What may differ -/

/-- What two runs need not have in common. A walk takes over the outputs of the walks that it calls, which are one
call deeper; two nodes that correspond lead on in the same way, and call the same. -/
structure Likeness (σ : Type) where
  /-- The states of the hosts, each with the calls made so far. -/
  hosts : σ → List Interaction → σ → List Interaction → Prop
  /-- The outputs of two walks at some depth. -/
  outputs : Nat → List Contribution → List Contribution → Prop
  nodes : Node → Node → Prop
  outputs_refl : ∀ k l, outputs k l l
  outputs_append : ∀ {k l l' m m'}, outputs k l l' → outputs (k + 1) m m' → outputs k (l ++ m) (l' ++ m')
  nodes_shape : ∀ {n n'}, nodes n n' → ∃ kind, n' = { n with kind } ∧ kind.typeName = n.kind.typeName ∧
    ∀ c, n.kind = .invoke c → kind = n.kind

/-- Runs with the same outputs, whose hosts and nodes are related so. -/
def Likeness.sameOutputs (hosts : σ → List Interaction → σ → List Interaction → Prop) (nodes : Node → Node → Prop)
    (nodes_shape : ∀ {n n'}, nodes n n' → ∃ kind, n' = { n with kind } ∧ kind.typeName = n.kind.typeName ∧
      ∀ c, n.kind = .invoke c → kind = n.kind) : Likeness σ where
  hosts := hosts
  outputs _ l l' := l' = l
  nodes := nodes
  outputs_refl _ _ := rfl
  outputs_append hl hm := by rw [hl, hm]
  nodes_shape := nodes_shape

/-- A node leads on like itself. -/
theorem Node.shape_of_eq {n n' : Node} (h : n' = n) : ∃ kind, n' = { n with kind } ∧
    kind.typeName = n.kind.typeName ∧ ∀ c, n.kind = .invoke c → kind = n.kind :=
  ⟨_, h, rfl, fun _ _ => rfl⟩

variable {L : Likeness σ} {k : Nat}

/-- The worlds differ at most in their hosts and the calls made so far, and these correspond. -/
def World.Alike (L : Likeness σ) (w w' : World σ) : Prop :=
  ∃ host interactions, L.hosts w.host w.interactions host interactions ∧ w' = { w with host, interactions }

/-- The frames of two walks at some depth differ at most in their outputs, and these correspond. -/
def Frame.Alike (L : Likeness σ) (k : Nat) (f f' : Frame) : Prop :=
  ∃ outputs, L.outputs k f.outputs outputs ∧ f' = { f with outputs }

/-- So do the frames behind two steps of a kind. -/
def Frame.StepAlike (L : Likeness σ) (k : Nat) (a b : Step × Frame) : Prop := b.1 = a.1 ∧ a.2.Alike L k b.2

/-- So do the frames in which two walks have ended alike. -/
def WalkEnd.Alike (L : Likeness σ) (k : Nat) (done done' : WalkEnd) : Prop :=
  ∃ f', done.frame.Alike L k f' ∧ done' = { done with frame := f' }

/-- The playbooks differ at most in what their nodes do. -/
structure Definition.Alike (L : Likeness σ) (d d' : Definition) : Prop where
  name : d'.name = d.name
  start : d'.start = d.start
  params : d'.paramNames = d.paramNames
  node : ∀ id, Option.Rel L.nodes (d.node? id) (d'.node? id)

/-- There are playbooks of the same names, and they are alike. -/
def Registry.Alike (L : Likeness σ) (r r' : Registry) : Prop :=
  ∀ name, Option.Rel (Definition.Alike L) (r.get? name) (r'.get? name)

/-- The same engine with other playbooks. -/
abbrev Engine.over (e : Engine σ) (playbooks : Registry) : Engine σ := { e with playbooks }

namespace Likeness

/-- Two calls that hosts which correspond answer alike, after which they correspond again. -/
def Hides (L : Likeness σ) (call call' : σ → Reply σ α) (note note' : Except Error α → Interaction) : Prop :=
  ∀ s is s' is', L.hosts s is s' is' →
    (call' s').result = (call s).result ∧ (call' s').cancels = (call s).cancels ∧
      L.hosts (call s).host (is ++ [note (call s).result]) (call' s').host
        (is' ++ [note' (call s).result])

/-- The model answers alike. -/
def Answers (L : Likeness σ) (host : Host σ) : Prop :=
  ∀ request, L.Hides (host.generate · request) (host.generate · request) (.generated request)
    (.generated request)

/-- No call tells hosts apart that correspond, unless it reads the memory. -/
structure Blind (L : Likeness σ) (host : Host σ) : Prop where
  generate : L.Answers host
  useTool : ∀ context tool input, L.Hides (host.useTool · context tool input) (host.useTool · context tool input)
    (.toolUsed context tool input) (.toolUsed context tool input)
  append : ∀ entry, L.Hides (host.append · entry) (host.append · entry) (.appended entry) (.appended entry)
  deliver : ∀ agent content, L.Hides (host.deliver · agent content) (host.deliver · agent content)
    (.delivered agent content) (.delivered agent content)
  interrupts : ∀ {s is s' is'}, L.hosts s is s' is' → ∀ events, host.interrupts s' events = host.interrupts s events

/-- A walk has to stop in both runs or in none. -/
theorem Blind.stops_eq {host : Host σ} (h : L.Blind host) {w w' : World σ} (hw : World.Alike L w w') :
    w'.stops host = w.stops host := by
  obtain ⟨s, is, hs, rfl⟩ := hw
  simp only [World.stops, h.interrupts hs]

/-- A host that does not tell alike worlds apart answers both alike whether the run is cancelled. -/
theorem Blind.polled {host : Host σ} (h : L.Blind host) {w w' : World σ} (hw : World.Alike L w w') :
    World.Alike L (w.polled host) (w'.polled host) := by
  have hstops := h.stops_eq hw
  obtain ⟨s, is, hs, rfl⟩ := hw
  exact ⟨s, is, hs, by rw [World.polled, hstops]; rfl⟩

/-- With this profile the model is shown the same in both runs. -/
def Sees (L : Likeness σ) (e : Engine σ) (caller caller' : Caller) (name : ProfileName) : Prop :=
  ∀ thread, Coupled (World.Alike L) Eq (e.context caller name thread) (e.context caller' name thread)

end Likeness

/-- A playbook is alike to itself, if its nodes are. -/
theorem Definition.Alike.refl {d : Definition} (h : ∀ n ∈ d.graph.nodes, L.nodes n n) :
    Definition.Alike L d d := by
  refine ⟨rfl, rfl, rfl, fun id => ?_⟩
  cases hn : d.node? id with
  | none => exact .none
  | some n => exact .some (h n (Definition.node_mem hn))

/-- A registry is like itself if its nodes are. -/
theorem Registry.Alike.refl {r : Registry}
    (h : ∀ name d, r.get? name = some d → ∀ n ∈ d.graph.nodes, L.nodes n n) : Registry.Alike L r r := by
  intro name
  cases hd : r.get? name with
  | none => exact .none
  | some d => exact .some (.refl (h name d hd))

theorem Frame.Alike.refl (f : Frame) : f.Alike L k f := ⟨f.outputs, L.outputs_refl k _, rfl⟩

namespace Frame.Alike

variable {f f' : Frame}

theorem region (h : f.Alike L k f') : f'.region = f.region := by
  obtain ⟨_, _, rfl⟩ := h
  rfl

theorem thread (h : f.Alike L k f') : f'.thread = f.thread := by
  obtain ⟨_, _, rfl⟩ := h
  rfl

/-- The same value under the same key leaves frames alike, or is refused by both. -/
theorem write (h : f.Alike L k f') (key : String) (value : Json) :
    Matches (Alike L k) (f.write key value) (f'.write key value) := by
  obtain ⟨outputs, ho, rfl⟩ := h
  simp only [Frame.write]
  exact (Matches.refl (f.region.insert key value)).map fun r _ hr => ⟨outputs, ho, by rw [← hr]⟩

/-- The same output leaves frames alike. -/
theorem contribute (h : f.Alike L k f') (c : Contribution) :
    (f.contribute c).Alike L k (f'.contribute c) := by
  obtain ⟨outputs, ho, rfl⟩ := h
  exact ⟨outputs ++ [c], L.outputs_append ho (L.outputs_refl _ [c]), rfl⟩

end Frame.Alike

/-- Two nodes that correspond are the same call, or none of them is a call. -/
theorem Likeness.invoke_iff (L : Likeness σ) {n n' : Node} (h : L.nodes n n') (c : Call) :
    n'.kind = .invoke c ↔ n.kind = .invoke c := by
  obtain ⟨kind, rfl, htype, hinvoke⟩ := L.nodes_shape h
  constructor
  · rintro rfl
    cases hn : n.kind with
    | invoke c' => rw [← hn, ← hinvoke c' hn]
    | _ =>
      rw [hn] at htype
      exact absurd htype (by simp [NodeKind.typeName])
  · intro hn
    exact (hinvoke c hn).trans hn

/-- They lead both walks to the same place. -/
theorem Likeness.goal?_eq (L : Likeness σ) {n n' : Node} (h : L.nodes n n') {a b : Step × Frame}
    (hab : Frame.StepAlike L k a b) : n'.goal? b = n.goal? a := by
  obtain ⟨kind, rfl, _, _⟩ := L.nodes_shape h
  rcases a with ⟨step, f⟩
  rcases b with ⟨step', f'⟩
  obtain ⟨hstep, outputs, _, hf⟩ := hab
  cases hstep
  cases hf
  cases step <;> rfl

/-! ## Actions -/

namespace Exec.Coupled

/-- An action that neither looks at the host nor calls it. -/
theorem offHost {x : Exec σ α}
    (hx : ∀ w host interactions, x { w with host, interactions } =
      ((x w).1, { (x w).2 with host, interactions })) :
    Coupled (World.Alike L) Eq x x := by
  rintro w _ ⟨host, interactions, hw, rfl⟩
  have hsame : x w = ((x w).1, { (x w).2 with host := w.host, interactions := w.interactions }) := hx w _ _
  have hhost : (x w).2.host = w.host := congrArg (fun p => p.2.host) hsame
  have hcalls : (x w).2.interactions = w.interactions := congrArg (fun p => p.2.interactions) hsame
  rw [hx w host interactions]
  refine ⟨⟨host, interactions, ?_, rfl⟩, .refl _⟩
  rw [hhost, hcalls]
  exact hw

/-- The same event in alike worlds. -/
theorem publish (agent : String) (what : Happening) :
    Coupled (World.Alike L) Eq (Exec.publish agent what) (Exec.publish agent what) :=
  .offHost fun _ _ _ => rfl

/-- The same call on the hierarchy, which alike worlds share. -/
theorem onHierarchy (f : Hierarchy → Except Error Hierarchy) :
    Coupled (World.Alike L) Eq (Exec.onHierarchy f) (Exec.onHierarchy f) := by
  refine .offHost fun w host interactions => ?_
  simp only [Exec.onHierarchy]
  cases f w.hierarchy <;> rfl

/-- The same sessions are aborted in alike worlds, and the same events tell of them. -/
theorem aborting (agent : String) (f : Hierarchy → Except Error (Hierarchy × List ThreadId)) :
    Coupled (World.Alike L) Eq (Exec.aborting agent f) (Exec.aborting agent f) := by
  refine .offHost fun w host interactions => ?_
  simp only [Exec.aborting]
  cases f w.hierarchy <;> rfl

/-- Two calls of the host whose difference is hidden have the same answer. -/
theorem consult {call call' : σ → Reply σ α} {note note' : Except Error α → Interaction}
    (h : L.Hides call call' note note') :
    Coupled (World.Alike L) Eq (Exec.consult call note) (Exec.consult call' note') := by
  rintro w _ ⟨host, interactions, hw, rfl⟩
  obtain ⟨hresult, hcancels, hhosts⟩ := h _ _ _ _ hw
  rw [Exec.consult_run, Exec.consult_run, hresult, hcancels]
  exact ⟨⟨_, _, hhosts, rfl⟩, .refl _⟩

/-- Two actions in a row, where the first one has the same answer in both runs. -/
theorem next {β γ : Type} {S : β → γ → Prop} {x y : Exec σ α} {k : α → Exec σ β}
    {l : α → Exec σ γ}
    (hx : Coupled (World.Alike L) Eq x y) (hk : ∀ a, Coupled (World.Alike L) S (k a) (l a)) :
    Coupled (World.Alike L) S (x >>= k) (y >>= l) := by
  refine hx.bind ?_
  rintro a _ rfl
  exact hk a

end Exec.Coupled

/-! ## Nodes -/

namespace Engine

variable {e : Engine σ} {r : Registry} {caller caller' : Caller} {node : Node} {f f' : Frame}

/-- No tuning makes a worker see more than its prompt. -/
theorem sees_workerLight (L : Likeness σ) (e : Engine σ) (caller caller' : Caller) :
    L.Sees e caller caller' .workerLight := by
  intro thread
  rw [context, context, e.config.history_worker (.inr rfl)]
  exact .pure rfl

/-- The same session is opened in alike worlds, or rejected for the same cause. -/
theorem open?_alike (hagent : caller'.agent = caller.agent) (ratio : Option Double) (label : Option String) :
    Coupled (World.Alike L) Eq (e.open? caller ratio label) ((e.over r).open? caller' ratio label) := by
  have hsame : (e.over r).open? caller' ratio label = e.open? caller ratio label := by
    funext w
    simp only [open?, hagent]
  rw [hsame]
  refine .offHost fun w host interactions => ?_
  simp only [open?]
  cases w.hierarchy.enter (e.supply w.drawn) ratio label e.now with
  | ok h => rfl
  | error cause =>
    simp only
    split <;> rfl

/-- A rejection leaves the same mark in frames that are alike. -/
theorem reject_alike (node node' : Node) (hagent : caller'.agent = caller.agent) (hid : node'.id = node.id)
    (cause : Error) (hf : f.Alike L k f') :
    Coupled (World.Alike L) (Frame.Alike L k) (reject caller node cause f)
      (reject caller' node' cause f') := by
  rw [reject, reject, hagent, hid]
  exact .bind (.ofExcept (hf.write errorKey _)) fun _ _ hf => .next (.publish _ _) fun _ => .pure hf

/-- A prompt has the same answer, if both callers see the same of what differs. -/
theorem ask_alike (hagent : caller'.agent = caller.agent) (hmodel : L.Answers e.host) {name : ProfileName}
    (hsees : L.Sees e caller caller' name) (prompt : String) (schema : Option Json) (thread : ThreadId) :
    Coupled (World.Alike L) Eq (e.ask caller name prompt schema thread)
      ((e.over r).ask caller' name prompt schema thread) := by
  rw [ask, ask, hagent]
  refine .next (hsees thread) fun context => .next (.consult (hmodel _)) fun g => ?_
  exact .next (.offHost fun _ _ _ => rfl) fun _ => .next (.publish _ _) fun _ => .ofExcept (.refl _)

/-- The transcripts are the same, and so are the chronicles. -/
theorem chronicle_alike (hagent : caller'.agent = caller.agent) (hmodel : L.Answers e.host) (id thread : ThreadId) :
    Coupled (World.Alike L) Eq (e.chronicle caller id thread) ((e.over r).chronicle caller' id thread) := by
  refine .next (.offHost fun _ _ _ => rfl) fun h => .next (.ofExcept (.refl _)) fun transcript => ?_
  split
  · exact .pure rfl
  · exact .next (ask_alike hagent hmodel (sees_workerLight L e caller caller') _ _ _) fun _ => .pure rfl

/-- A session is completed with the same words. -/
theorem complete_alike (hagent : caller'.agent = caller.agent) (id : ThreadId) (text : Option String)
    (hf : f.Alike L k f') :
    Coupled (World.Alike L) (Frame.Alike L k) (e.complete caller id text f)
      ((e.over r).complete caller' id text f') := by
  obtain ⟨outputs, ho, rfl⟩ := hf
  rw [complete, complete, hagent]
  refine .next (.onHierarchy _) fun _ => .next (.offHost fun _ _ _ => rfl) fun active => ?_
  exact .next (.publish _ _) fun _ => .pure ⟨outputs, ho, rfl⟩

/-- A session is closed in the same way, or aborted for the same cause. -/
theorem close_alike (hagent : caller'.agent = caller.agent) (hmodel : L.Answers e.host) (id : ThreadId)
    (summarize : Bool) (hf : f.Alike L k f') :
    Coupled (World.Alike L) (Frame.Alike L k) (e.close caller id summarize f)
      ((e.over r).close caller' id summarize f') := by
  have hcomplete := fun text => complete_alike (e := e) (r := r) hagent id text hf
  obtain ⟨outputs, ho, rfl⟩ := hf
  cases summarize with
  | false => exact hcomplete none
  | true =>
    refine .bind (chronicle_alike hagent hmodel id f.thread).attempt ?_
    rintro _ _ (cause | ⟨rfl⟩)
    · rw [hagent]
      exact .next (.aborting _ _) fun _ => .throw cause
    · exact hcomplete _

/-- So are several sessions. -/
theorem closeAll_alike (hagent : caller'.agent = caller.agent) (hmodel : L.Answers e.host)
    (ids : List (Option ThreadId)) (hf : f.Alike L k f') :
    Coupled (World.Alike L) (Frame.Alike L k) (e.closeAll caller ids f)
      ((e.over r).closeAll caller' ids f') := by
  induction ids generalizing f f' with
  | nil =>
    obtain ⟨outputs, ho, rfl⟩ := hf
    exact .pure ⟨outputs, ho, rfl⟩
  | cons entry rest ih =>
    obtain ⟨outputs, ho, rfl⟩ := hf
    cases entry with
    | none => exact ih ⟨outputs, ho, rfl⟩
    | some id => exact .bind (close_alike hagent hmodel id true ⟨outputs, ho, rfl⟩) fun _ _ => ih

/-- Alike walks open the same session. -/
theorem enterSession_alike (hagent : caller'.agent = caller.agent) (o : Opening) (hf : f.Alike L k f') :
    Coupled (World.Alike L) (Frame.Alike L k) (e.enterSession caller node o f)
      ((e.over r).enterSession caller' node o f') := by
  obtain ⟨outputs, ho, rfl⟩ := hf
  refine .next (open?_alike hagent o.windowRatio o.label) fun entered => ?_
  cases entered with
  | ok id => exact .pure ⟨outputs, ho, rfl⟩
  | error cause => exact reject_alike node node hagent rfl cause ⟨outputs, ho, rfl⟩

/-- Alike walks leave the same session. -/
theorem leaveSession_alike (hagent : caller'.agent = caller.agent) (hmodel : L.Answers e.host)
    (isTop summarize : Bool) (hf : f.Alike L k f') :
    Coupled (World.Alike L) (Frame.Alike L k) (e.leaveSession caller node isTop summarize f)
      ((e.over r).leaveSession caller' node isTop summarize f') := by
  have hreject := reject_alike node node hagent rfl .noOpenSession hf
  have hclose := fun id => close_alike (r := r) hagent hmodel id summarize hf
  obtain ⟨outputs, ho, rfl⟩ := hf
  unfold leaveSession
  simp only
  split
  · exact close_alike hagent hmodel _ summarize ⟨outputs, ho, rfl⟩
  · exact .pure ⟨outputs, ho, rfl⟩
  · split
    · refine .next (.offHost fun _ _ _ => rfl) fun h => .next (.ofExcept (.refl _)) fun t => ?_
      split
      · exact hreject
      · exact hclose t.id
    · exact hreject

/-- The same is remembered in alike worlds. -/
theorem remember_alike (hagent : caller'.agent = caller.agent) (hhost : L.Blind e.host)
    (role content : String) (tags : List String) (hf : f.Alike L k f') :
    Coupled (World.Alike L) Eq (e.remember caller role content tags f)
      ((e.over r).remember caller' role content tags f') := by
  obtain ⟨outputs, ho, rfl⟩ := hf
  rw [remember, remember, hagent]
  exact .consult (hhost.append _)

/-- Alike walks get the same answer from the model. -/
theorem generate_alike (hagent : caller'.agent = caller.agent) (hhost : L.Blind e.host) {g : Generate}
    (hsees : L.Sees e caller caller' g.profile) (hf : f.Alike L k f') :
    Coupled (World.Alike L) (Frame.Alike L k) (e.generate caller g f)
      ((e.over r).generate caller' g f') := by
  obtain ⟨outputs, ho, rfl⟩ := hf
  refine .next (.ofExcept (.refl _)) fun prompt => .next (ask_alike hagent hhost.generate hsees _ _ _) fun v => ?_
  exact .ofExcept (Frame.Alike.write ⟨outputs, ho, rfl⟩ g.outputKey v)

/-- Alike walks get the same answer from a tool. -/
theorem useTool_alike (hagent : caller'.agent = caller.agent) (hhost : L.Blind e.host) (t : ToolCall)
    (hf : f.Alike L k f') :
    Coupled (World.Alike L) (Frame.Alike L k) (e.useTool caller t f) ((e.over r).useTool caller' t f') := by
  obtain ⟨outputs, ho, rfl⟩ := hf
  rw [useTool, useTool, hagent]
  refine .next (.ofExcept (.refl _)) fun args => .next (.consult (hhost.useTool _ _ _)) fun content => ?_
  exact .ofExcept (Frame.Alike.write ⟨outputs, ho, rfl⟩ t.outputKey _)

/-- Alike walks say the same. -/
theorem emit_alike (hagent : caller'.agent = caller.agent) (hhost : L.Blind e.host) (source : String)
    (hf : f.Alike L k f') :
    Coupled (World.Alike L) (Frame.Alike L k) (e.emit caller node source f)
      ((e.over r).emit caller' node source f') := by
  have hremember := fun content =>
    remember_alike (r := r) hagent hhost Role.assistant.name content [conversationTag] hf
  obtain ⟨outputs, ho, rfl⟩ := hf
  rw [emit, emit, hagent]
  refine .next (.ofExcept (.refl _)) fun content => .next (hremember content) fun _ => ?_
  refine .next (.onHierarchy _) fun _ => .next (.consult (hhost.deliver _ _)) fun _ => ?_
  refine .next (.offHost fun _ _ _ => rfl) fun _ => .next (.publish _ _) fun _ => ?_
  exact .pure (Frame.Alike.contribute ⟨outputs, ho, rfl⟩ _)

/-- Alike walks think the same. -/
theorem reflect_alike (hagent : caller'.agent = caller.agent) (hhost : L.Blind e.host) (source : String)
    (hf : f.Alike L k f') :
    Coupled (World.Alike L) (Frame.Alike L k) (e.reflect caller source f)
      ((e.over r).reflect caller' source f') := by
  rw [reflect, reflect, hf.region, hagent]
  refine .next (.ofExcept (.refl _)) fun content => ?_
  exact .next (remember_alike hagent hhost _ _ _ hf) fun _ => .pure hf

/-- A record is contributed in both runs or in none, unless the outputs may differ. -/
theorem record_alike (hagent : caller'.agent = caller.agent) (hhost : L.Blind e.host) (isTop : Bool)
    (horchestration : isTop = true → caller'.orchestration = caller.orchestration ∨
      ∀ l l', L.outputs k l l')
    (rec : Recording) (hf : f.Alike L k f') :
    Coupled (World.Alike L) (Frame.Alike L k) (e.record caller node isTop rec f)
      ((e.over r).record caller' node isTop rec f') := by
  rw [record, record, hf.region, hagent]
  refine .next (.ofExcept (.refl _)) fun content => ?_
  refine .next (remember_alike hagent hhost _ _ _ hf) fun _ => ?_
  cases isTop with
  | false => exact .pure (hf.contribute _)
  | true =>
    obtain ⟨outputs, ho, rfl⟩ := hf
    -- at top level the recording counts only without orchestration
    rcases horchestration rfl with hsame | hany
    · rw [hsame]
      cases caller.orchestration with
      | true => exact .pure ⟨outputs, ho, rfl⟩
      | false => exact .pure (Frame.Alike.contribute ⟨outputs, ho, rfl⟩ _)
    · cases caller.orchestration <;> cases caller'.orchestration <;>
        exact .pure ⟨_, hany _ _, rfl⟩

/-- A node that calls no playbook does the same in both runs. -/
theorem dispatch_alike (hagent : caller'.agent = caller.agent) (hhost : L.Blind e.host)
    {level level' : Level σ} (hdepth : level'.depth = level.depth) (hkind : ∀ c, node.kind ≠ .invoke c)
    (hsees : ∀ g, node.kind = .generate g → L.Sees e caller caller' g.profile)
    (horchestration : level.depth = 0 → caller'.orchestration = caller.orchestration ∨
      ∀ l l', L.outputs k l l')
    (hf : f.Alike L k f') :
    Coupled (World.Alike L) (Frame.StepAlike L k) (e.dispatch caller level node f)
      ((e.over r).dispatch caller' level' node f') := by
  have hproceed : ∀ {x y : Exec σ Frame}, Coupled (World.Alike L) (Frame.Alike L k) x y →
      Coupled (World.Alike L) (Frame.StepAlike L k) (x >>= fun f => pure (Step.proceed, f))
        (y >>= fun f => pure (Step.proceed, f)) :=
    fun hx => hx.bind fun _ _ hf => .pure ⟨rfl, hf⟩
  rw [dispatch, dispatch, hdepth]
  cases hn : node.kind with
  | generate g => exact hproceed (generate_alike hagent hhost (hsees g hn) hf)
  | invokeTool t => exact hproceed (useTool_alike hagent hhost t hf)
  | emit content => exact hproceed (emit_alike hagent hhost content hf)
  | reflect content => exact hproceed (reflect_alike hagent hhost content hf)
  | record rec =>
    have htop : (level.depth == 0) = true → _ := fun h => horchestration (beq_iff_eq.1 h)
    exact hproceed (record_alike hagent hhost _ htop rec hf)
  | pass => exact hproceed (.pure hf)
  | invoke c => exact absurd hn (hkind c)
  | enterSession o => exact hproceed (enterSession_alike hagent o hf)
  | leaveSession summarize => exact hproceed (leaveSession_alike hagent hhost.generate _ summarize hf)

end Engine

end Playbook
