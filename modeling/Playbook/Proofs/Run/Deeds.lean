import Playbook.Proofs.Run.Visits

/-! # What a run does, deed by deed

A deed is a change of the world together with all that belongs to it: a thread that is entered or closed
with its event, an answer of the model with its usage, a dispatched node with its entry in the trace. Every
action consists of deeds, however it ends, and so does every walk with all the walks that it calls. What
each deed keeps is kept by every run.

Main statements: `Standing.rest_does` says that walks consist of deeds, `Engine.run_eq` what a run adds to
its walk, and `Engine.run_does` that runs consist of deeds between their first event and their last.
-/

namespace Playbook

open Relation (ReflTransGen)

variable {σ α β : Type}

/-! ## Deeds -/

/-- Events that tell of nothing but themselves: a node was started, or an operation was rejected. -/
def Happening.isNote : Happening → Bool
  | .nodeStarted .. => true
  | .operationRejected .. => true
  | _ => false

/-- The world when a call of the host has returned. -/
def World.consulted (w : World σ) (host : σ) (cancels : Bool) (i : Interaction) : World σ :=
  { w with host, cancelled := w.cancelled || cancels, interactions := w.interactions ++ [i] }

/-- The world when events have been published. -/
def World.told (w : World σ) (agent : String) (whats : List Happening) : World σ :=
  { w with events := w.events ++ whats.map (fun what => ⟨agent, what⟩) }

/-- What is kept in the memory of something that is said in a thread. -/
def MemoryEntry.said (agent content : String) (thread : ThreadId) (time : Time) : MemoryEntry :=
  ⟨agent, Role.assistant.name, content, [conversationTag], some thread, time⟩

/-- What deeds may do: in which threads something may be recorded, and which entries the trace may get. -/
structure Scope where
  speaks : Hierarchy → ThreadId → Prop
  notes : TraceEntry → Prop

/-- The scope that allows everything. -/
def Scope.any : Scope := ⟨fun _ _ => True, fun _ => True⟩

/-- Something may be recorded, in whatever thread. -/
def Scope.Speaks (S : Scope) : Prop := ∃ h thread, S.speaks h thread

/-- One deed of a run of an agent. -/
inductive Deed (e : Engine σ) (agent : String) (S : Scope) (w : World σ) : World σ → Prop where
  /-- A call of the host that neither gives a generation nor delivers anything. -/
  | consulted (host : σ) (cancels : Bool) (i : Interaction) (hu : i.usage? = none)
      (hd : i.delivery? = none) : Deed e agent S w (w.consulted host cancels i)
  /-- A walk asks whether it has to stop. -/
  | polled : Deed e agent S w (w.polled e.host)
  /-- The model answers, and its usage is counted. -/
  | answered (host : σ) (cancels : Bool) (request : Request) (g : Generation) :
    Deed e agent S w
      { (w.consulted host cancels (.generated request (.ok g))).told agent [.usageUpdate g.usage] with
        usage := w.usage.add g.usage }
  | noted (what : Happening) (h : what.isNote = true) : Deed e agent S w (w.told agent [what])
  /-- A node is done. -/
  | dispatched (t : TraceEntry) (hS : S.notes t) :
    Deed e agent S w { w.told agent [.nodeCompleted t.node] with trace := w.trace ++ [t] }
  /-- Something that is to be said is remembered and recorded in its thread. -/
  | recorded (host : σ) (cancels : Bool) (thread : ThreadId) (content : String) (h : Hierarchy)
      (hS : S.speaks w.hierarchy thread)
      (hr : w.hierarchy.recordIn thread .assistant content [conversationTag] = .ok h) :
    Deed e agent S w
      { w.consulted host cancels (.appended (.said agent content thread e.now) (.ok ())) with
        hierarchy := h }
  /-- It reaches the user. -/
  | delivered (host : σ) (cancels : Bool) (node content : String) (hS : S.Speaks) :
    Deed e agent S w
      { (w.consulted host cancels (.delivered agent content (.ok ()))).told agent [.emitted content] with
        fragments := w.fragments ++ [.emission node content] }
  | entered (ratio : Option Double) (label : Option String) (h : Hierarchy) (t : Thread)
      (he : w.hierarchy.enter (e.supply w.drawn) ratio label e.now = .ok h)
      (ht : h.get? (e.supply w.drawn) = some t) :
    Deed e agent S w
      { w.told agent [.threadEntered (e.supply w.drawn) t.depth t.budget] with
        hierarchy := h
        drawn := w.drawn + 1 }
  | left (id : ThreadId) (chronicle : Option String) (h : Hierarchy)
      (hl : w.hierarchy.leave id chronicle e.now = .ok h) :
    Deed e agent S w
      { w.told agent [.threadCompleted id chronicle.isSome] with hierarchy := h }
  | aborted (id : ThreadId) (h : Hierarchy) (ids : List ThreadId)
      (ha : w.hierarchy.abort id e.now = .ok (h, ids)) :
    Deed e agent S w { w.told agent (ids.map .threadAborted) with hierarchy := h }

/-- Any number of deeds. -/
def Deeds (e : Engine σ) (agent : String) (S : Scope) :
    World σ → World σ → Prop :=
  ReflTransGen (Deed e agent S)

/-- In this world the action consists of deeds, whether it fails or not. -/
def Does (e : Engine σ) (agent : String) (S : Scope) (x : Exec σ α)
    (w : World σ) : Prop :=
  Deeds e agent S w (x w).2

variable {e : Engine σ} {agent : String} {S : Scope} {w w' : World σ}

/-- Where a thread is entered it is there. -/
theorem Hierarchy.get?_of_enter {h h' : Hierarchy} {id : ThreadId} {ratio : Option Double}
    {label : Option String} {now : Time} (he : h.enter id ratio label now = .ok h') :
    ∃ t, h'.get? id = some t := by
  rcases Checked.bind_eq_ok.1 he with ⟨parent, _, hrest⟩
  rcases Checked.bind_eq_ok.1 hrest with ⟨owner, _, hok⟩
  cases hok
  refine ⟨Thread.nested id parent (ratio.getD h.limits.defaultRatio) label now, ?_⟩
  simp [get?]

/-- Aborting above a thread, or after a run, aborts a session or nothing. -/
theorem Deeds.of_abort_or_same {h : Hierarchy} {ids : List ThreadId}
    (hcases : (h = w.hierarchy ∧ ids = []) ∨ ∃ id, w.hierarchy.abort id e.now = .ok (h, ids)) :
    Deeds e agent S w { w.told agent (ids.map .threadAborted) with hierarchy := h } := by
  rcases hcases with ⟨rfl, rfl⟩ | ⟨id, ha⟩
  · have hsame : { w.told agent (([] : List ThreadId).map .threadAborted) with
        hierarchy := w.hierarchy } = w := by
      simp [World.told]
    rw [hsame]
    exact .refl
  · exact .single (.aborted id h ids ha)

/-! ## What they keep -/

/-- A world in which a call has changed the hierarchy is settled again. -/
theorem Settled.moved (hinj : Function.Injective e.supply) (hs : Settled e w) {m : Hierarchy.Move}
    {h : Hierarchy} (hm : m.answer w.hierarchy (e.supply w.drawn) = .ok h)
    (hhierarchy : w'.hierarchy = h) (hdrawn : w'.drawn = w.drawn + m.draws) :
    Settled e w' ∧ w.hierarchy.Grows w'.hierarchy := by
  have hmoved : Effect e Engine.Any w { w with hierarchy := h, drawn := w.drawn + m.draws } :=
    .moved m h hm
  rcases hmoved.settled hinj hs with ⟨⟨hopen, hfresh⟩, hgrows⟩
  subst hhierarchy
  refine ⟨⟨hopen, ?_⟩, hgrows⟩
  rw [hdrawn]
  exact hfresh

/-- Every deed keeps the world settled, and lets the hierarchy grow. -/
theorem Deed.settled (hinj : Function.Injective e.supply) (hs : Settled e w)
    (hd : Deed e agent S w w') : Settled e w' ∧ w.hierarchy.Grows w'.hierarchy := by
  cases hd with
  | recorded host cancels thread content h hS hr =>
    exact hs.moved hinj (m := .recordIn thread .assistant content [conversationTag]) hr rfl rfl
  | entered ratio label h t he ht => exact hs.moved hinj (m := .enter ratio label e.now) he rfl rfl
  | left id chronicle h hl => exact hs.moved hinj (m := .leave id chronicle e.now) hl rfl rfl
  | aborted id h ids ha =>
    have hm : (Hierarchy.Move.abort id e.now).answer w.hierarchy (e.supply w.drawn) = .ok h := by
      simp only [Hierarchy.Move.answer, ha]
      rfl
    exact hs.moved hinj hm rfl rfl
  | _ => exact ⟨⟨hs.openPath, hs.fresh⟩, .refl _⟩

/-- So do all of them together. -/
theorem Deeds.settled (hinj : Function.Injective e.supply) (hs : Settled e w)
    (hd : Deeds e agent S w w') : Settled e w' ∧ w.hierarchy.Grows w'.hierarchy :=
  hs.along (Deed.settled hinj) hd

/-- Usage is never taken back. -/
theorem Deeds.usage_le (hd : Deeds e agent S w w') :
    w.usage.input ≤ w'.usage.input ∧ w.usage.output ≤ w'.usage.output := by
  induction hd with
  | refl => exact ⟨Nat.le_refl _, Nat.le_refl _⟩
  | tail _ hlast ih =>
    rcases ih with ⟨hin, hout⟩
    cases hlast with
    | answered host cancels request g =>
      exact ⟨hin.trans (Nat.le_add_right _ _), hout.trans (Nat.le_add_right _ _)⟩
    | _ => exact ⟨hin, hout⟩

/-- The trace only gets entries that may be noted, at its end. -/
theorem Deeds.trace_grows (hd : Deeds e agent S w w') :
    ∃ added, w'.trace = w.trace ++ added ∧ ∀ t ∈ added, S.notes t := by
  induction hd with
  | refl => exact ⟨[], (List.append_nil _).symm, fun _ hmem => absurd hmem List.not_mem_nil⟩
  | tail _ hlast ih =>
    rcases ih with ⟨added, htrace, hnotes⟩
    cases hlast with
    | dispatched t hS =>
      refine ⟨added ++ [t], ?_, ?_⟩
      · simp only [htrace, List.append_assoc]
      · intro u hmem
        rcases List.mem_append.1 hmem with hmem | hmem
        · exact hnotes u hmem
        · exact List.mem_singleton.1 hmem ▸ hS
    | _ => exact ⟨added, htrace, hnotes⟩

/-! ## Putting actions together -/

/-- A call of the host is noted with its answer. -/
theorem Exec.consult_run (call : σ → Reply σ α) (note : Except Error α → Interaction) (w : World σ) :
    Exec.consult call note w =
      ((call w.host).result,
        w.consulted (call w.host).host (call w.host).cancels (note (call w.host).result)) := rfl

namespace Does

variable {x : Exec σ α} {k : α → Exec σ β}

/-- The action does nothing to the world. -/
theorem of_same (h : (x w).2 = w) : Does e agent S x w := by
  rw [Does, h]
  exact .refl

theorem pure (a : α) : Does e agent S (pure a : Exec σ α) w := .of_same rfl

theorem throw (c : Error) : Does e agent S (throw c : Exec σ α) w := .of_same rfl

theorem ofExcept (r : Except Error α) : Does e agent S (Exec.ofExcept r : Exec σ α) w := by
  cases r with
  | ok a => exact .pure a
  | error c => exact .throw c

theorem look (f : World σ → α) : Does e agent S (Exec.look f) w := .of_same rfl

/-- Two actions in a row: the second one is known to start where the first one has ended. -/
theorem bind (hx : Does e agent S x w)
    (hk : ∀ a w', x w = (.ok a, w') → Does e agent S (k a) w') : Does e agent S (x >>= k) w :=
  Along.bind (R := Deeds e agent S) .trans hx hk

theorem attempt (hx : Does e agent S x w) : Does e agent S (Exec.attempt x) w := hx

/-- An event that changes no count. -/
theorem note {what : Happening} (h : what.isNote = true) :
    Does e agent S (Exec.publish agent what) w :=
  .single (.noted what h)

/-- A call of the host that neither uses the model nor delivers. -/
theorem consult {call : σ → Reply σ α} {note : Except Error α → Interaction}
    (hu : ∀ r, (note r).usage? = none) (hd : ∀ r, (note r).delivery? = none) :
    Does e agent S (Exec.consult call note) w :=
  .single (.consulted _ _ _ (hu _) (hd _))

/-- Nothing is aborted, or a session with what is open in it. -/
theorem aborting {f : Hierarchy → Except Error (Hierarchy × List ThreadId)}
    (hf : ∀ h ids, f w.hierarchy = .ok (h, ids) →
      (h = w.hierarchy ∧ ids = []) ∨ ∃ id, w.hierarchy.abort id e.now = .ok (h, ids)) :
    Does e agent S (Exec.aborting agent f) w := by
  unfold Does Exec.aborting
  split
  · rename_i h ids hr
    have hdeeds : Deeds e agent S w _ := .of_abort_or_same (hf h ids hr)
    rw [World.told, List.map_map] at hdeeds
    exact hdeeds
  · exact .refl

end Does

/-! ## Nodes -/

namespace Engine

variable {caller : Caller} {node : Node} {f : Frame}

/-- A rejection is a note. -/
theorem does_reject (cause : Error) :
    Does e caller.agent.id S (reject (σ := σ) caller node cause f) w := by
  refine .bind (.ofExcept _) fun f _ _ => .bind ?_ fun _ _ _ => .pure _
  exact .note rfl

/-- A session is opened and told, or nothing happens. -/
theorem does_open? (ratio : Option Double) (label : Option String) :
    Does e caller.agent.id S (e.open? caller ratio label) w := by
  unfold Does open?
  simp only
  split
  · rename_i h hr
    rcases Hierarchy.get?_of_enter hr with ⟨t, ht⟩
    have hdeed : Deed e caller.agent.id S w _ := .entered ratio label h t hr ht
    rw [ht]
    exact .single hdeed
  · split <;> exact .refl

/-- A context asks the memory at most. -/
theorem does_context (name : ProfileName) (thread : ThreadId) :
    Does e caller.agent.id S (e.context caller name thread) w := by
  unfold context
  split
  · simp only [replyContext]
    split
    · exact .bind (.consult (fun _ => rfl) fun _ => rfl) fun _ _ _ => .look _
    · exact .bind (.pure _) fun _ _ _ => .look _
  · exact .look _
  · exact .pure _

/-- An answer of the model comes with its usage; without an answer nothing is counted. -/
theorem does_answer (request : Request) (schema : Option Json) :
    Does e caller.agent.id S (do
      let g ← Exec.consult (fun s => e.host.generate s request) (.generated request)
      Exec.change fun w => { w with usage := w.usage.add g.usage }
      Exec.publish caller.agent.id (.usageUpdate g.usage)
      Exec.ofExcept (conform e.schemas schema g.output)) w := by
  rw [Does, Exec.bind_run, Exec.consult_run]
  rcases e.host.generate w.host request with ⟨cause | g, cancels, host⟩
  · exact .single (.consulted host cancels _ rfl rfl)
  · -- whatever is made of the answer afterwards does not change the world
    exact .trans (.single (.answered host cancels request g)) (Does.ofExcept (conform e.schemas schema g.output))

/-- The usage of a prompt is added up when the model has answered. -/
theorem does_ask (name : ProfileName) (prompt : String) (schema : Option Json) (thread : ThreadId) :
    Does e caller.agent.id S (e.ask caller name prompt schema thread) w :=
  .bind (does_context name thread) fun _ _ _ => does_answer _ schema

/-- A chronicle is a prompt, if there is anything to summarise. -/
theorem does_chronicle (id thread : ThreadId) :
    Does e caller.agent.id S (e.chronicle caller id thread) w := by
  refine .bind (.look _) fun h _ _ => .bind (.ofExcept _) ?_
  intro transcript _ _
  split
  · exact .pure _
  · exact .bind (does_ask _ _ _ _) fun _ _ _ => .pure _

/-- A session that can be left is left, and its parent is told of. -/
theorem complete_eq (id : ThreadId) (text : Option String) :
    e.complete caller id text f w =
      match w.hierarchy.leave id text e.now with
      | .ok h =>
        (.ok { f with thread := h.active },
          { w.told caller.agent.id [.threadCompleted id text.isSome] with hierarchy := h })
      | .error cause => (.error cause, w) := by
  rw [complete, Exec.bind_run, Exec.onHierarchy]
  cases w.hierarchy.leave id text e.now <;> rfl

/-- A session that is completed is told at once. -/
theorem does_complete (id : ThreadId) (text : Option String) :
    Does e caller.agent.id S (e.complete caller id text f) w := by
  rw [Does, complete_eq]
  cases hl : w.hierarchy.leave id text e.now with
  | ok h => exact .single (.left id text h hl)
  | error cause => exact .refl

/-- Sessions that are aborted are told at once. -/
theorem does_abort (id : ThreadId) :
    Does e caller.agent.id S (Exec.aborting caller.agent.id fun h => h.abort id e.now) w :=
  .aborting fun _ _ ha => Or.inr ⟨id, ha⟩

/-- A session is completed or aborted. -/
theorem does_close (id : ThreadId) (summarize : Bool) :
    Does e caller.agent.id S (e.close caller id summarize f) w := by
  unfold close
  split
  · refine .bind (.attempt (does_chronicle id f.thread)) ?_
    intro r _ _
    split
    · exact does_complete _ _
    · exact .bind (does_abort id) fun _ _ _ => .throw _
  · exact does_complete _ _

/-- A session is entered or rejected. -/
theorem does_enterSession (o : Opening) :
    Does e caller.agent.id S (e.enterSession caller node o f) w := by
  refine .bind (does_open? _ _) ?_
  intro r _ _
  split
  · exact .pure _
  · exact does_reject _

/-- A session is left or there is none. -/
theorem does_leaveSession (isTop summarize : Bool) :
    Does e caller.agent.id S (e.leaveSession caller node isTop summarize f) w := by
  unfold leaveSession
  split
  · exact does_close _ _
  · exact .pure _
  · split
    · refine .bind (.look _) fun h _ _ => .bind (.ofExcept _) ?_
      intro t _ _
      split
      · exact does_reject _
      · exact does_close _ _
    · exact does_reject _

/-- Remembering is a call of the host. -/
theorem does_remember (role content : String) (tags : List String) :
    Does e caller.agent.id S (e.remember caller role content tags f) w :=
  .consult (fun _ => rfl) fun _ => rfl

/-- What is delivered is told of, in the stream and to the observers. -/
theorem does_deliver (hS : S.Speaks) (content : String) :
    Does e caller.agent.id S (do
      Exec.consult (fun s => e.host.deliver s caller.agent.id content)
        (.delivered caller.agent.id content)
      Exec.change fun w => { w with fragments := w.fragments ++ [.emission node.id content] }
      Exec.publish caller.agent.id (.emitted content)
      pure (f.contribute ⟨node.id, .emission, content⟩)) w := by
  rw [Does, Exec.bind_run, Exec.consult_run]
  rcases e.host.deliver w.host caller.agent.id content with ⟨cause | _, cancels, host⟩
  · exact .single (.consulted host cancels _ rfl rfl)
  · exact .single (.delivered host cancels node.id content hS)

/-- What is said is remembered and recorded in one deed; what is not remembered is not recorded. -/
theorem does_say (hS : S.speaks w.hierarchy f.thread) (content : String) {k : Exec σ β}
    (hk : ∀ w, Does e caller.agent.id S k w) :
    Does e caller.agent.id S (do
      e.remember caller Role.assistant.name content [conversationTag] f
      Exec.onHierarchy fun h => h.recordIn f.thread .assistant content [conversationTag]
      k) w := by
  rw [Does, Exec.bind_run, remember, Exec.consult_run]
  -- only what is remembered is recorded in the thread
  rcases e.host.append w.host _ with ⟨cause | _, cancels, host⟩
  · exact .single (.consulted host cancels _ rfl rfl)
  · dsimp only
    rw [Exec.bind_run, Exec.onHierarchy]
    cases hrec : w.hierarchy.recordIn f.thread .assistant content [conversationTag] with
    | error cause =>
      simp only [World.consulted, hrec]
      exact .single (.consulted host cancels _ rfl rfl)
    | ok h =>
      simp only [World.consulted, hrec]
      exact .trans (.single (.recorded host cancels f.thread content h hS hrec)) (hk _)

/-- An emission is recorded and delivered in one deed, by a walk that may speak. -/
theorem does_emit (hS : S.speaks w.hierarchy f.thread) (source : String) :
    Does e caller.agent.id S (e.emit caller node source f) w := by
  unfold emit
  cases Template.render f.region source with
  | error cause => exact .throw cause
  | ok content => exact does_say hS content fun _ => does_deliver ⟨_, _, hS⟩ content

theorem does_reflect (source : String) :
    Does e caller.agent.id S (e.reflect caller source f) w :=
  .bind (.ofExcept _) fun _ _ _ => .bind (does_remember _ _ _) fun _ _ _ => .pure _

theorem does_record (isTop : Bool) (r : Recording) :
    Does e caller.agent.id S (e.record caller node isTop r f) w := by
  refine .bind (.ofExcept _) fun content _ _ => .bind (does_remember _ _ _) ?_
  intro _ _ _
  split <;> exact .pure _

/-- The answer of the model is kept in the frame. -/
theorem does_generate (g : Generate) : Does e caller.agent.id S (e.generate caller g f) w :=
  .bind (.ofExcept _) fun _ _ _ => .bind (does_ask _ _ _ _) fun _ _ _ => .ofExcept _

/-- So is that of a tool. -/
theorem does_useTool (t : ToolCall) : Does e caller.agent.id S (e.useTool caller t f) w :=
  .bind (.ofExcept _) fun _ _ _ => .bind (.consult (fun _ => rfl) fun _ => rfl) fun _ _ _ =>
    .ofExcept _

/-- A node that calls nothing consists of deeds. -/
theorem does_dispatch_of_no_call {level : Level σ} (hkind : ∀ c, node.kind ≠ .invoke c)
    (hS : ∀ source, node.kind = .emit source → S.speaks w.hierarchy f.thread) :
    Does e caller.agent.id S (e.dispatch caller level node f) w := by
  simp only [dispatch]
  split
  · exact .bind (does_generate _) fun _ _ _ => .pure _
  · exact .bind (does_useTool _) fun _ _ _ => .pure _
  · rename_i source hsource
    exact .bind (does_emit (hS source hsource) _) fun _ _ _ => .pure _
  · exact .bind (does_reflect _) fun _ _ _ => .pure _
  · exact .bind (does_record _ _) fun _ _ _ => .pure _
  · exact .bind (.pure _) fun _ _ _ => .pure _
  · rename_i c hc
    exact absurd hc (hkind c)
  · exact .bind (does_enterSession _) fun _ _ _ => .pure _
  · exact .bind (does_leaveSession _ _) fun _ _ _ => .pure _

/-- Sessions are entered and closed by deeds. -/
theorem carried_does (e : Engine σ) (caller : Caller) (S : Scope) :
    Carried e caller (Deeds e caller.agent.id S) where
  polled := fun _ => .single .polled
  refl := fun _ => .refl
  trans := .trans
  opened := fun ratio label _ => does_open? ratio label
  rejected := fun _ cause _ _ => does_reject cause
  closed := fun id summarize _ _ => does_close id summarize
  aborted := fun id _ => does_abort id
  abortedAbove := fun _ _ => Does.aborting fun _ _ ha => Hierarchy.abortAbove_cases ha

end Engine

/-! ## Walks -/

namespace Standing

variable {caller : Caller} {p : Standing σ} {node : Node}

/-- The entry of the trace when this node of the walk is done. -/
def entry (e : Engine σ) (caller : Caller) (p : Standing σ) (node : Node) : TraceEntry :=
  ⟨p.playbook.name, node.id, node.kind.typeName, p.made + 1, (e.level caller p.calls).depth⟩

/-- Announcing a node is a deed. -/
theorem announced_deed : Deed e caller.agent.id S p.world (p.announced caller node) :=
  .noted _ rfl

/-- So is noting that it is done. -/
theorem ticked_deed (hS : S.notes (entry e caller p node)) (w : World σ) :
    Deed e caller.agent.id S w
      (w.ticked caller.agent.id p.playbook node p.made (e.level caller p.calls).depth) :=
  .dispatched _ hS

/-- While a node is dispatched there are deeds only, if there are only deeds in the walks that it calls. -/
theorem outcome_does (hd : p.Dispatches e node) (hS : S.speaks p.world.hierarchy p.frame.thread)
    (hcalled : ∀ q, Next e caller p q → q.calls < p.calls →
      Deeds e caller.agent.id S q.world (q.rest e caller).2) :
    Deeds e caller.agent.id S (p.announced caller node) (p.outcome e caller node).2 := by
  refine outcome_along (Engine.carried_does e caller S) hd ?_ hcalled
  intro hkind
  exact Engine.does_dispatch_of_no_call hkind fun _ _ => hS

/-- Every walk consists of deeds, if wherever it dispatches a node it may speak in its thread, and the node
may be noted. -/
theorem rest_does (p : Standing σ)
    (hS : ∀ q node, Visits e caller p q → q.Dispatches e node →
      S.speaks q.world.hierarchy q.frame.thread ∧ S.notes (entry e caller q node)) :
    Deeds e caller.agent.id S p.world (p.rest e caller).2 := by
  refine rest_along (Engine.carried_does e caller S) p ?_
  intro q node hvisits hd
  rcases hS q node hvisits hd with ⟨hspeaks, hnotes⟩
  refine ⟨.single announced_deed, ?_, fun w => .single (ticked_deed hnotes w)⟩
  intro hkind
  exact Engine.does_dispatch_of_no_call hkind fun _ _ => hspeaks

end Standing

/-! ## Runs -/

/-- The event that ends a run with this result. -/
def Happening.ending (name : String) : Except Error Outcome → Happening
  | .ok o =>
    match o.status with
    | .completed => .runCompleted name o.steps o.outputs.length
    | .cancelled => .runCancelled name
  | .error cause => .runFailed name cause.message

/-- Whatever the result, it is told by an event that ends the run. -/
theorem Happening.isTerminal_ending (name : String) (r : Except Error Outcome) :
    (Happening.ending name r).isTerminal = true := by
  rcases r with cause | o
  · rfl
  · simp only [ending]
    cases o.status <;> rfl

namespace Engine

variable {caller : Caller} {name : String} {args : Dict Json}

/-- What a run adds to its walk: unless the walk has come to its end its sessions are aborted, and then the
observers are told how the run has ended. -/
theorem run_eq (e : Engine σ) (caller : Caller) (name : String) (args : Dict Json) (w : World σ) :
    e.run caller name args w =
      match e.start caller name args w.hierarchy.active w with
      | (.ok done, w₁) =>
        if done.cancelled then
          match w₁.hierarchy.abortRun w.hierarchy.active e.now with
          | .ok (h, ids) =>
            (.ok ⟨.cancelled, done.frame.outputs, done.steps, w₁.usage, w₁.trace,
                { done.frame with thread := h.active }⟩,
              { w₁.told caller.agent.id (ids.map .threadAborted ++ [.runCancelled name]) with
                hierarchy := h })
          | .error cause => (.error cause, w₁)
        else
          (.ok ⟨.completed, done.frame.outputs, done.steps, w₁.usage, w₁.trace, done.frame⟩,
            w₁.told caller.agent.id [.runCompleted name done.steps done.frame.outputs.length])
      | (.error cause, w₁) =>
        match w₁.hierarchy.abortRun w.hierarchy.active e.now with
        | .ok (h, ids) =>
          (.error cause,
            { w₁.told caller.agent.id
                (ids.map .threadAborted ++ [.runFailed name cause.message]) with hierarchy := h })
        | .error _ => (.error cause, w₁.told caller.agent.id [.runFailed name cause.message]) := by
  -- the program is followed up to the end of the walk, and from there by how the walk has ended
  rw [run, Exec.bind_run]
  simp only [Exec.look]
  rw [Exec.bind_run]
  simp only [Exec.attempt]
  rcases e.start caller name args w.hierarchy.active w with ⟨cause | done, w₁⟩
  · simp only
    rw [Exec.bind_run]
    simp only [Exec.attempt, Exec.aborting]
    cases w₁.hierarchy.abortRun w.hierarchy.active e.now with
    | ok p =>
      simp only [World.told, List.map_append, List.map_map, ← List.append_assoc]
      rfl
    | error cause' => rfl
  · simp only
    cases hc : done.cancelled with
    | true =>
      simp only [if_true]
      rw [Exec.bind_run, Exec.aborting]
      cases w₁.hierarchy.abortRun w.hierarchy.active e.now with
      | ok p =>
        simp only [World.told, List.map_append, List.map_map, ← List.append_assoc]
        rfl
      | error cause' => rfl
    | false => rfl

/-- Behind its walk a run tells something more, and aborts its sessions or leaves them; nothing else changes. -/
theorem run_world (e : Engine σ) (caller : Caller) (name : String) (args : Dict Json) (w : World σ) :
    ∃ whats h, (e.run caller name args w).2 =
        { (e.start caller name args w.hierarchy.active w).2.told caller.agent.id whats with hierarchy := h } ∧
      (h = (e.start caller name args w.hierarchy.active w).2.hierarchy ∨
        ∃ ids, (e.start caller name args w.hierarchy.active w).2.hierarchy.abortRun w.hierarchy.active e.now =
          .ok (h, ids)) := by
  rw [run_eq]
  rcases e.start caller name args w.hierarchy.active w with ⟨cause | done, w₁⟩
  · simp only
    rcases w₁.hierarchy.abortRun w.hierarchy.active e.now with cause' | ⟨h, ids⟩
    · exact ⟨_, _, rfl, .inl rfl⟩
    · exact ⟨_, h, rfl, .inr ⟨ids, rfl⟩⟩
  · cases hc : done.cancelled with
    | false =>
      simp only [hc, Bool.false_eq_true, if_false]
      exact ⟨_, _, rfl, .inl rfl⟩
    | true =>
      simp only [hc, if_true]
      rcases w₁.hierarchy.abortRun w.hierarchy.active e.now with cause' | ⟨h, ids⟩
      · exact ⟨[], w₁.hierarchy, by simp [World.told], .inl rfl⟩
      · exact ⟨_, h, rfl, .inr ⟨ids, rfl⟩⟩

/-- The world in which the walk of a run starts: a run is announced if its arguments can be bound. -/
def opened (e : Engine σ) (caller : Caller) (name : String) (args : Dict Json) (w : World σ) : World σ :=
  match e.bindArguments name args with
  | .ok (d, _) => w.begun caller.agent.id d
  | .error _ => w

/-- A run whose arguments can be bound begins with an event. -/
theorem opened_of_ok {d : Definition} {region : Region} (hb : e.bindArguments name args = .ok (d, region))
    (w : World σ) : e.opened caller name args w = w.begun caller.agent.id d := by
  rw [opened, hb]

/-- A run whose arguments cannot be bound begins with nothing. -/
theorem opened_of_error {cause : Error} (hb : e.bindArguments name args = .error cause) (w : World σ) :
    e.opened caller name args w = w := by
  rw [opened, hb]

/-- What a run does before it cleans up are deeds. -/
theorem start_does (e : Engine σ) (caller : Caller) (name : String) (args : Dict Json)
    (mark : ThreadId) (w : World σ) :
    Deeds e caller.agent.id .any (e.opened caller name args w)
      (e.start caller name args mark w).2 := by
  cases hb : e.bindArguments name args with
  | error cause =>
    rw [opened_of_error hb, start_of_error hb]
    exact .refl
  | ok bound =>
    rcases bound with ⟨d, region⟩
    rw [opened_of_ok hb, start_eq_rest hb]
    let p := Standing.start e.config.engine.maxCallDepth d region mark (w.begun caller.agent.id d)
    exact p.rest_does (S := .any) fun _ _ _ _ => ⟨trivial, trivial⟩

/-- Aborting after a run consists of deeds. -/
theorem abortRun_does {mark : ThreadId} {h : Hierarchy} {ids : List ThreadId}
    (ha : w.hierarchy.abortRun mark e.now = .ok (h, ids)) :
    Deeds e agent S w { w.told agent (ids.map .threadAborted) with hierarchy := h } :=
  .of_abort_or_same (Hierarchy.abortRun_cases ha)

/-- Between its announcement and its end a run consists of deeds, if its sessions can be aborted where it
fails. What it hands back is what is counted and noted then, and the steps of its walk. -/
theorem run_does {r : Except Error Outcome} (hrun : e.run caller name args w = (r, w'))
    (habort : ∀ cause, r = .error cause → ∃ h ids,
      (e.start caller name args w.hierarchy.active w).2.hierarchy.abortRun w.hierarchy.active e.now =
        .ok (h, ids)) :
    ∃ w₂, Deeds e caller.agent.id .any (e.opened caller name args w) w₂ ∧
      w' = w₂.told caller.agent.id [.ending name r] ∧
      ∀ o, r = .ok o → o.usage = w₂.usage ∧ o.trace = w₂.trace ∧
        ∃ done w₁, e.start caller name args w.hierarchy.active w = (.ok done, w₁) ∧
          o.steps = done.steps ∧ o.trace = w₁.trace := by
  have hstart := start_does e caller name args w.hierarchy.active w
  rw [run_eq] at hrun
  rcases hs : e.start caller name args w.hierarchy.active w with ⟨r₁, w₁⟩
  rw [hs] at hstart hrun habort
  simp only at hstart habort
  rcases r₁ with cause | done
  · -- the walk has failed, and so does the run
    simp only at hrun
    rcases ha : w₁.hierarchy.abortRun w.hierarchy.active e.now with cause' | ⟨h, ids⟩
    · rw [ha] at hrun
      cases hrun
      rcases habort cause rfl with ⟨h, ids, hok⟩
      rw [ha] at hok
      cases hok
    · rw [ha] at hrun
      cases hrun
      refine ⟨_, hstart.trans (abortRun_does ha), ?_, fun o ho => nomatch ho⟩
      simp [World.told, Happening.ending]
  · cases hc : done.cancelled with
    | true =>
      simp only [hc, if_true] at hrun
      rcases ha : w₁.hierarchy.abortRun w.hierarchy.active e.now with cause' | ⟨h, ids⟩
      · rw [ha] at hrun
        cases hrun
        rcases habort cause' rfl with ⟨h, ids, hok⟩
        rw [ha] at hok
        cases hok
      · rw [ha] at hrun
        cases hrun
        refine ⟨_, hstart.trans (abortRun_does ha), ?_, ?_⟩
        · simp [World.told, Happening.ending]
        · intro o ho
          cases ho
          exact ⟨rfl, rfl, done, w₁, rfl, rfl, rfl⟩
    | false =>
      simp only [hc, Bool.false_eq_true, if_false] at hrun
      cases hrun
      refine ⟨w₁, hstart, rfl, ?_⟩
      intro o ho
      cases ho
      exact ⟨rfl, rfl, done, w₁, rfl, rfl, rfl⟩

end Engine

end Playbook
