import Mathlib.Logic.Relation
import Playbook.Proofs.Hierarchy.Reachable
import Playbook.Proofs.Run.Exec
import Playbook.Run.Outcome

/-! # What actions do to the world

Whatever an action does, and however it ends, the world changes in small steps only: a call of the host, a question
whether the run is cancelled, an addition to the usage, the trace, the stream or the events, or a call that changes the
hierarchy. What every such step keeps is kept by every run.

Main statements: `acts_dispatch` and `acts_walk` say so of nodes and walks, and `Effects.settled` that the
open threads stay a path and the hierarchy only grows.
-/

namespace Playbook

open Relation (ReflTransGen)

variable {σ α β : Type}

/-- What a call does to the host and to the run: whether the run is cancelled while the call is going on, and
the state of the host when it has returned. -/
def Host.react (host : Host σ) (s : σ) : Interaction → Bool × σ
  | .generated request _ => ((host.generate s request).cancels, (host.generate s request).host)
  | .toolUsed context tool input _ =>
    ((host.useTool s context tool input).cancels, (host.useTool s context tool input).host)
  | .appended entry _ => ((host.append s entry).cancels, (host.append s entry).host)
  | .recalled agent limit _ => ((host.recollect s agent limit).cancels, (host.recollect s agent limit).host)
  | .delivered agent content _ => ((host.deliver s agent content).cancels, (host.deliver s agent content).host)

/-- One small change of the world. The events that it may publish are those that `ok` admits. -/
inductive Effect (e : Engine σ) (ok : Happening → Prop) (w : World σ) : World σ → Prop where
  /-- The host is called, and the run may be cancelled meanwhile. -/
  | consulted (host : σ) (cancels : Bool) (i : Interaction) (h : e.host.react w.host i = (cancels, host)) :
    Effect e ok w
      { w with host, cancelled := w.cancelled || cancels, interactions := w.interactions ++ [i] }
  /-- A walk asks whether the run is cancelled. -/
  | polled : Effect e ok w (w.polled e.host)
  /-- What the model has used is added up. -/
  | used (u : Usage) : Effect e ok w { w with usage := w.usage.add u }
  /-- The trace gets an entry. -/
  | noted (t : TraceEntry) : Effect e ok w { w with trace := w.trace ++ [t] }
  /-- The stream gets a fragment. -/
  | said (f : Fragment) : Effect e ok w { w with fragments := w.fragments ++ [f] }
  /-- An event is published. -/
  | published (agent : String) (what : Happening) (h : ok what) :
    Effect e ok w { w with events := w.events ++ [⟨agent, what⟩] }
  /-- The hierarchy answers a call, which may take a name. -/
  | moved (m : Hierarchy.Move) (h : Hierarchy)
      (hm : m.answer w.hierarchy (e.supply w.drawn) = .ok h) :
    Effect e ok w { w with hierarchy := h, drawn := w.drawn + m.draws }

/-- Any number of small changes. -/
def Effects (e : Engine σ) (ok : Happening → Prop) : World σ → World σ → Prop :=
  ReflTransGen (Effect e ok)

/-- Whatever the world is, the action changes it in small steps only. -/
def Acts (e : Engine σ) (ok : Happening → Prop) (x : Exec σ α) : Prop :=
  ∀ w, Effects e ok w (x w).2

variable {e : Engine σ} {ok : Happening → Prop} {w w' : World σ}

/-- Where more events are admitted, the same changes are possible. -/
theorem Effects.mono {ok' : Happening → Prop} (hok : ∀ what, ok what → ok' what)
    (h : Effects e ok w w') : Effects e ok' w w' := by
  refine ReflTransGen.mono ?_ _ _ h
  intro a b hab
  cases hab with
  | consulted host cancels i h => exact .consulted host cancels i h
  | polled => exact .polled
  | used u => exact .used u
  | noted t => exact .noted t
  | said f => exact .said f
  | published agent what hw => exact .published agent what (hok what hw)
  | moved m h hm => exact .moved m h hm

/-- Several events, one after the other. -/
theorem Effects.publishAll (agent : String) (whats : List Happening) (hok : ∀ what ∈ whats, ok what)
    (w : World σ) :
    Effects e ok w { w with events := w.events ++ whats.map (fun what => ⟨agent, what⟩) } := by
  induction whats generalizing w with
  | nil =>
    rw [List.map_nil, List.append_nil]
    exact .refl
  | cons what whats ih =>
    have hfirst : Effect e ok w { w with events := w.events ++ [⟨agent, what⟩] } :=
      .published agent what (hok what List.mem_cons_self)
    have hrest := ih (fun x hx => hok x (List.mem_cons_of_mem _ hx))
      { w with events := w.events ++ [⟨agent, what⟩] }
    rw [List.append_assoc] at hrest
    exact .head hfirst hrest

/-! ## Putting actions together -/

namespace Acts

variable {x : Exec σ α} {k : α → Exec σ β}

/-- An action that publishes only some events publishes no others where more are admitted. -/
theorem mono {ok' : Happening → Prop} (hok : ∀ what, ok what → ok' what) (hx : Acts e ok x) :
    Acts e ok' x :=
  fun w => (hx w).mono hok

/-- An answer changes nothing. -/
theorem pure (a : α) : Acts e ok (pure a : Exec σ α) := fun _ => .refl

/-- Neither does a failure: what an action has done before stays done. -/
theorem throw (c : Error) : Acts e ok (throw c : Exec σ α) := fun _ => .refl

/-- Nor does an answer that may be a failure. -/
theorem ofExcept (r : Except Error α) : Acts e ok (Exec.ofExcept r : Exec σ α) := by
  cases r with
  | ok a => exact .pure a
  | error c => exact .throw c

theorem look (f : World σ → α) : Acts e ok (Exec.look f) := fun _ => .refl

/-- Two actions in a row: if the first one fails, its changes are all there are. -/
theorem bind (hx : Acts e ok x) (hk : ∀ a, Acts e ok (k a)) : Acts e ok (x >>= k) := by
  intro w
  have hfirst := hx w
  rw [Exec.bind_run]
  rcases hr : x w with ⟨r, w'⟩
  rw [hr] at hfirst
  cases r with
  | ok a => exact hfirst.trans (hk a w')
  | error c => exact hfirst

/-- Whether a failure is caught makes no difference to the world. -/
theorem attempt (hx : Acts e ok x) : Acts e ok (Exec.attempt x) := hx

theorem publish (agent : String) {what : Happening} (h : ok what) :
    Acts e ok (Exec.publish agent what) :=
  fun _ => .single (.published agent what h)

/-- A question whether the run is cancelled. -/
theorem poll : Acts e ok (Exec.poll e.host) := fun _ => .single .polled

/-- A call of the host, if the host does what is noted of it. -/
theorem consult {call : σ → Reply σ α} {note : Except Error α → Interaction}
    (h : ∀ s, e.host.react s (note (call s).result) = ((call s).cancels, (call s).host)) :
    Acts e ok (Exec.consult call note) :=
  fun w => .single (.consulted _ _ _ (h w.host))

/-- A call that changes the hierarchy and takes no name. -/
theorem onHierarchy (m : Hierarchy.Move) (hm : m.draws = 0) {f : Hierarchy → Except Error Hierarchy}
    (hf : ∀ h next, f h = m.answer h next) : Acts e ok (Exec.onHierarchy f) := by
  intro w
  unfold Exec.onHierarchy
  split
  · rename_i h hr
    have heff : Effect e ok w { w with hierarchy := h, drawn := w.drawn + m.draws } :=
      .moved m h ((hf _ _).symm.trans hr)
    rw [hm] at heff
    exact .single heff
  · exact .refl

/-- Aborting sessions, with an event for each. -/
theorem aborting (agent : String) (m : Hierarchy.Move) (hm : m.draws = 0)
    (hok : ∀ id, ok (.threadAborted id))
    {f : Hierarchy → Except Error (Hierarchy × List ThreadId)}
    (hf : ∀ h next, (f h).map Prod.fst = m.answer h next) : Acts e ok (Exec.aborting agent f) := by
  intro w
  unfold Exec.aborting
  split
  · rename_i h ids hr
    have hans : m.answer w.hierarchy (e.supply w.drawn) = .ok h := by
      rw [← hf, hr]
      rfl
    have heff : Effect e ok w { w with hierarchy := h, drawn := w.drawn + m.draws } :=
      .moved m h hans
    rw [hm] at heff
    -- the hierarchy changes first, then the aborted sessions are announced one by one
    have hwhat : ∀ what ∈ ids.map Happening.threadAborted, ok what := fun what hw => by
      rcases List.mem_map.1 hw with ⟨id, _, rfl⟩
      exact hok id
    have hpub : Effects e ok { w with hierarchy := h } _ := .publishAll agent _ hwhat _
    rw [List.map_map] at hpub
    exact .head heff hpub
  · exact .refl

end Acts

/-! ## Nodes -/

/-- Everything but the start of a node. -/
def Quiet : Happening → Prop
  | .nodeStarted .. => False
  | _ => True

namespace Engine

variable {caller : Caller} {node : Node} {f : Frame}

/-- A rejection leaves its mark in the frame, and publishes that it has happened. -/
theorem acts_reject (cause : Error) : Acts e Quiet (reject (σ := σ) caller node cause f) := by
  refine .bind (.ofExcept _) fun f => .bind ?_ fun _ => .pure _
  exact .publish _ trivial

/-- A session is opened with an entry, which takes a name, and an event that tells of it. -/
theorem acts_open? (ratio : Option Double) (label : Option String) :
    Acts e Quiet (e.open? caller ratio label) := by
  intro w
  unfold open?
  simp only
  split
  · rename_i h hr
    have heff : Effect e Quiet w { w with hierarchy := h, drawn := w.drawn + 1 } :=
      .moved (.enter ratio label e.now) h hr
    -- the event tells the depth and the budget of the thread, which has just been made
    refine .head heff ?_
    cases h.get? (e.supply w.drawn) with
    | none =>
      simp only [Option.toList_none, List.map_nil, List.append_nil]
      exact .refl
    | some t => exact .single (.published _ _ trivial)
  · split <;> exact .refl

/-- A context looks at the world, and may ask the memory. -/
theorem acts_context (name : ProfileName) (thread : ThreadId) :
    Acts e Quiet (e.context caller name thread) := by
  unfold context
  split
  · simp only [replyContext]
    split
    · exact .bind (.consult fun _ => rfl) fun _ => .look _
    · exact .bind (.pure _) fun _ => .look _
  · exact .look _
  · exact .pure _

/-- A prompt goes to the model, whose usage is added up and told. -/
theorem acts_ask (name : ProfileName) (prompt : String) (schema : Option Json) (thread : ThreadId) :
    Acts e Quiet (e.ask caller name prompt schema thread) := by
  refine .bind (acts_context name thread) ?_
  intro _
  refine .bind (.consult fun _ => rfl) ?_
  intro g
  refine .bind (fun _ => .single (.used g.usage)) ?_
  intro _
  refine .bind ?_ fun _ => .ofExcept _
  exact .publish _ trivial

/-- A chronicle is what the model makes of the transcript. -/
theorem acts_chronicle (id thread : ThreadId) : Acts e Quiet (e.chronicle caller id thread) := by
  refine .bind (.look _) fun h => .bind (.ofExcept _) ?_
  intro transcript
  split
  · exact .pure _
  · exact .bind (acts_ask _ _ _ _) fun _ => .pure _

/-- A session is completed with what is known of it, which is told. -/
theorem acts_complete (id : ThreadId) (text : Option String) :
    Acts e Quiet (e.complete caller id text f) := by
  refine .bind (.onHierarchy (.leave id text e.now) rfl fun _ _ => rfl) ?_
  intro _
  refine .bind (.look _) fun _ => .bind ?_ fun _ => .pure _
  exact .publish _ trivial

/-- A session is aborted with all that is open in it, and each of them is told. -/
theorem acts_abort (id : ThreadId) :
    Acts e Quiet (Exec.aborting caller.agent.id fun h => h.abort id e.now) :=
  .aborting _ (.abort id e.now) rfl (fun _ => trivial) fun _ _ => rfl

/-- A session is completed, or aborted if its chronicle cannot be made. -/
theorem acts_close (id : ThreadId) (summarize : Bool) :
    Acts e Quiet (e.close caller id summarize f) := by
  unfold close
  split
  · refine .bind (.attempt (acts_chronicle id f.thread)) ?_
    intro r
    split
    · exact acts_complete _ _
    · exact .bind (acts_abort id) fun _ => .throw _
  · exact acts_complete _ _

/-- Sessions are closed one by one, the innermost first. -/
theorem acts_closeAll (ids : List (Option ThreadId)) (f : Frame) :
    Acts e Quiet (e.closeAll caller ids f) := by
  induction ids generalizing f with
  | nil => exact .pure _
  | cons entry rest ih =>
    cases entry with
    | none => exact ih _
    | some id => exact .bind (acts_close id true) fun f => ih f

/-- A session that is not opened is a rejection. -/
theorem acts_enterSession (o : Opening) : Acts e Quiet (e.enterSession caller node o f) := by
  refine .bind (acts_open? _ _) ?_
  intro r
  split
  · exact .pure _
  · exact acts_reject _

/-- The last session of the walk is closed, or one that an earlier run has left open, or there is none to leave. -/
theorem acts_leaveSession (isTop summarize : Bool) :
    Acts e Quiet (e.leaveSession caller node isTop summarize f) := by
  unfold leaveSession
  split
  · exact acts_close _ _
  · exact .pure _
  · split
    · refine .bind (.look _) fun h => .bind (.ofExcept _) ?_
      intro t
      split
      · exact acts_reject _
      · exact acts_close _ _
    · exact acts_reject _

theorem acts_remember (role content : String) (tags : List String) :
    Acts e Quiet (e.remember caller role content tags f) :=
  .consult fun _ => rfl

/-- An emission is remembered, recorded, delivered and told. -/
theorem acts_emit (source : String) : Acts e Quiet (e.emit caller node source f) := by
  refine .bind (.ofExcept _) fun content => .bind (acts_remember _ _ _) ?_
  intro _
  refine .bind (.onHierarchy (.recordIn f.thread .assistant content [conversationTag]) rfl
    fun _ _ => rfl) ?_
  intro _
  refine .bind (.consult fun _ => rfl) fun _ => .bind (fun _ => .single (.said _)) ?_
  intro _
  refine .bind ?_ fun _ => .pure _
  exact .publish _ trivial

theorem acts_reflect (source : String) : Acts e Quiet (e.reflect caller source f) :=
  .bind (.ofExcept _) fun _ => .bind (acts_remember _ _ _) fun _ => .pure _

theorem acts_record (isTop : Bool) (r : Recording) : Acts e Quiet (e.record caller node isTop r f) := by
  refine .bind (.ofExcept _) fun content => .bind (acts_remember _ _ _) ?_
  intro _
  split <;> exact .pure _

theorem acts_generate (g : Generate) : Acts e Quiet (e.generate caller g f) :=
  .bind (.ofExcept _) fun _ => .bind (acts_ask _ _ _ _) fun _ => .ofExcept _

theorem acts_useTool (t : ToolCall) : Acts e Quiet (e.useTool caller t f) :=
  .bind (.ofExcept _) fun _ => .bind (.consult fun _ => rfl) fun _ => .ofExcept _

/-! ## Calls and dispatch -/

section

variable {callee : Definition} {region : Region} {descend : Definition → Frame → Exec σ WalkEnd}

/-- The caller takes over the ledger of an inline call however it ends, so it goes on in the world of the
called walk. -/
theorem callInline_eq :
    e.callInline caller callee region descend f =
      (Exec.attempt (descend callee (.start region f.thread)) >>= fun r =>
        match r with
        | .ok done => pure done
        | .error cause =>
          Exec.aborting caller.agent.id (fun h => h.abortAbove f.thread e.now) >>= fun _ =>
            throw cause) := by
  funext w
  simp only [callInline, Exec.bind_run, Exec.apart, Exec.attempt]
  cases (descend callee (.start region f.thread) w).1 <;> rfl

/-- So it does after an isolated call. -/
theorem callIsolated_eq (summarize : Bool) (child : ThreadId) :
    e.callIsolated caller callee region descend summarize child =
      (Exec.attempt (e.walkIsolated caller callee region descend summarize child) >>= fun r =>
        match r with
        | .ok done => do
          if done.cancelled then Exec.aborting caller.agent.id (fun h => h.abort child e.now)
          pure done
        | .error cause =>
          Exec.aborting caller.agent.id (fun h => h.abort child e.now) >>= fun _ => throw cause) := by
  funext w
  simp only [callIsolated, Exec.bind_run, Exec.apart, Exec.attempt]
  cases (e.walkIsolated caller callee region descend summarize child w).1 <;> rfl

variable (hok : ∀ what, Quiet what → ok what) (hd : ∀ d f, Acts e ok (descend d f))
include hok hd

/-- An inline call that fails has the sessions aborted that it has left open. -/
theorem acts_callInline : Acts e ok (e.callInline caller callee region descend f) := by
  rw [callInline_eq]
  refine .bind (.attempt (hd _ _)) ?_
  intro r
  split
  · exact .pure _
  · refine .bind ?_ fun _ => .throw _
    exact .aborting _ (.abortAbove f.thread e.now) rfl (fun _ => hok _ trivial) fun _ _ => rfl

/-- A callee in a session of its own walks, and then what it has left open is closed. -/
theorem acts_walkIsolated (summarize : Bool) (child : ThreadId) :
    Acts e ok (e.walkIsolated caller callee region descend summarize child) := by
  refine .bind (hd _ _) ?_
  intro done
  split
  · exact .pure _
  · refine .bind ((acts_closeAll _ _).mono hok) ?_
    intro frame
    exact .bind ((acts_close _ _).mono hok) fun _ => .pure _

/-- The session of an isolated call is closed with its walk, or aborted. -/
theorem acts_callIsolated (summarize : Bool) (child : ThreadId) :
    Acts e ok (e.callIsolated caller callee region descend summarize child) := by
  have habort : Acts e ok (Exec.aborting caller.agent.id fun h => h.abort child e.now) :=
    (acts_abort child).mono hok
  rw [callIsolated_eq]
  refine .bind (.attempt (acts_walkIsolated hok hd summarize child)) ?_
  intro r
  split
  · rename_i done
    simp only
    split
    · exact .bind habort fun _ => .pure _
    · exact .pure _
  · exact .bind habort fun _ => .throw _

end

/-- What a call is made with. -/
theorem prepare_ok {c : Call} {level : Level σ} {callee : Definition} {region : Region}
    {descend : Definition → Frame → Exec σ WalkEnd}
    (hp : e.prepare c level f = .ok (callee, region, descend)) :
    e.playbooks.require c.playbook = .ok callee ∧ level.descend = some descend ∧
      ∃ args, Template.resolveArgs f.region c.args = .ok args ∧
        callee.checkArguments args.keys = .ok () ∧ Region.ofArgs args = .ok region := by
  simp only [prepare, bind, Except.bind] at hp
  split at hp
  · cases hp
  · rename_i d hr
    split at hp
    · cases hp
    · rename_i g hg
      split at hp
      · cases hp
      · rename_i args ha
        split at hp
        · cases hp
        · rename_i hc
          split at hp
          · cases hp
          · rename_i region' hreg
            cases hp
            exact ⟨hr, hg, args, ha, hc, hreg⟩

/-- What can be called from a level acts in small steps. -/
def CalleesAct (e : Engine σ) (ok : Happening → Prop) (level : Level σ) : Prop :=
  ∀ descend, level.descend = some descend → ∀ d f, Acts e ok (descend d f)

variable {level : Level σ}

/-- A call that cannot be prepared fails. -/
theorem call_of_error {c : Call} {cause : Error} (hp : e.prepare c level f = .error cause) :
    e.call caller node c level f = throw cause := by
  rw [call, hp]
  rfl

section

variable {c : Call} {callee : Definition} {region : Region}
  {descend : Definition → Frame → Exec σ WalkEnd}

/-- An inline call that can be prepared is made where the caller stands. -/
theorem call_inline (hp : e.prepare c level f = .ok (callee, region, descend))
    (hm : c.mode = .inline) :
    e.call caller node c level f =
      (e.callInline caller callee region descend f >>= fun done =>
        Exec.ofExcept (absorb c true done f)) := by
  rw [call, hp, hm]
  rfl

/-- An isolated call is made in a session, if one can be opened for it. -/
theorem call_isolated (hp : e.prepare c level f = .ok (callee, region, descend))
    (hm : c.mode = .isolated) :
    e.call caller node c level f =
      (e.open? caller c.windowRatio (some callee.name) >>= fun r =>
        match r with
        | .error cause => reject caller node cause f >>= fun f => pure (.proceed, f)
        | .ok child =>
          e.callIsolated caller callee region descend c.summarize child >>= fun done =>
            Exec.ofExcept (absorb c false done f)) := by
  rw [call, hp, hm]
  rfl

end

section

variable (hok : ∀ what, Quiet what → ok what)
include hok

/-- A call acts as its callee does. -/
theorem acts_call (hl : CalleesAct e ok level) (c : Call) :
    Acts e ok (e.call caller node c level f) := by
  cases hp : e.prepare c level f with
  | error cause =>
    rw [call_of_error hp]
    exact .throw _
  | ok p =>
    rcases p with ⟨callee, region, descend⟩
    have hd := hl descend (prepare_ok hp).2.1
    cases hm : c.mode with
    | inline =>
      rw [call_inline hp hm]
      exact .bind (acts_callInline hok hd) fun _ => .ofExcept _
    | isolated =>
      rw [call_isolated hp hm]
      refine .bind ((acts_open? _ _).mono hok) ?_
      intro r
      -- the session is rejected, or the callee walks in it
      split
      · exact .bind ((acts_reject _).mono hok) fun _ => .pure _
      · exact .bind (acts_callIsolated hok hd _ _) fun _ => .ofExcept _

/-- A failure that the node catches becomes the way on. -/
theorem acts_invoke (hl : CalleesAct e ok level) (c : Call) :
    Acts e ok (e.invoke caller node c level f) := by
  unfold invoke
  split
  · exact acts_call hok hl c
  · refine .bind (.attempt (acts_call hok hl c)) ?_
    intro r
    split
    · exact .pure _
    · exact .bind (.ofExcept _) fun _ => .pure _

/-- Every node changes the world in small steps, if all callees do, and starts no node itself. -/
theorem acts_dispatch (hl : CalleesAct e ok level) : Acts e ok (e.dispatch caller level node f) := by
  simp only [dispatch]
  split
  · exact .bind ((acts_generate _).mono hok) fun _ => .pure _
  · exact .bind ((acts_useTool _).mono hok) fun _ => .pure _
  · exact .bind ((acts_emit _).mono hok) fun _ => .pure _
  · exact .bind ((acts_reflect _).mono hok) fun _ => .pure _
  · exact .bind ((acts_record _ _).mono hok) fun _ => .pure _
  · exact .bind (.pure _) fun _ => .pure _
  · exact acts_invoke hok hl _
  · exact .bind ((acts_enterSession _).mono hok) fun _ => .pure _
  · exact .bind ((acts_leaveSession _ _).mono hok) fun _ => .pure _

end

/-! ## Walks and runs -/

/-- All events. -/
def Any (_ : Happening) : Prop := True

/-- A walk asks whether it is cancelled, dispatches a node, and goes on. -/
theorem acts_steps (hl : CalleesAct e Any level) (d : Definition) (left made : Nat) (id : String)
    (f : Frame) : Acts e Any (e.steps caller level d left made id f) := by
  induction left generalizing made id f with
  | zero =>
    -- the steps are used up, but a cancelled run ends as one
    unfold steps
    refine .bind .poll ?_
    intro cancelled
    split
    · exact .pure _
    · exact .throw _
  | succ left ih =>
    unfold steps
    refine .bind .poll ?_
    intro cancelled
    split
    · exact .pure _
    · simp only
      split
      · exact .throw _
      · refine .bind (.publish _ trivial) ?_
        intro _
        refine .bind (acts_dispatch (fun _ _ => trivial) hl) ?_
        intro p
        refine .bind (fun _ => .single (.noted _)) ?_
        intro _
        refine .bind (.publish _ trivial) ?_
        intro _
        -- the walk halts, goes where the node says, or goes on behind the node if anything follows
        split
        · exact .pure _
        · exact ih _ _ _
        · split
          · exact ih _ _ _
          · exact .pure _

/-- Walks change the world in small steps, by induction on how deep they may still call. -/
theorem acts_walk (calls : Nat) (d : Definition) (f : Frame) :
    Acts e Any (e.walk caller calls d f) := by
  induction calls generalizing d f with
  | zero =>
    refine acts_steps ?_ d _ _ _ f
    intro descend hd
    cases hd
  | succ calls ih =>
    refine acts_steps ?_ d _ _ _ f
    intro descend hd
    cases hd
    exact ih

/-- So does a run. -/
theorem acts_start (name : String) (args : Dict Json) (mark : ThreadId) :
    Acts e Any (e.start caller name args mark) :=
  .bind (.ofExcept _) fun _ => .bind (.publish _ trivial) fun _ => acts_walk _ _ _

end Engine

/-! ## What they keep -/

/-- A world between two steps: the open threads are a path, and no thread has a name that is still to be
drawn. -/
structure Settled (e : Engine σ) (w : World σ) : Prop where
  openPath : w.hierarchy.OpenPath
  fresh : ∀ n, w.drawn ≤ n → w.hierarchy.get? (e.supply n) = none

/-- A hierarchy that is made by calls is settled at the start of a run. -/
theorem Settled.of_reachable (hinj : Function.Injective e.supply) {limits : Limits}
    {s : Hierarchy.Numbered} (hr : Hierarchy.Reachable e.supply limits s) (host : σ) (cancelled : Bool) :
    Settled e (.start host s.hierarchy s.drawn cancelled) where
  openPath := (hr.sound hinj).1.openPath
  fresh := fun n hn => by
    refine (hr.sound hinj).1.fresh ?_
    intro hmem
    rcases List.mem_map.1 hmem with ⟨m, hm, heq⟩
    have hlt := List.mem_range.1 hm
    rw [hinj heq] at hlt
    have hle : s.drawn ≤ n := hn
    omega

/-- Every small change keeps the world settled, and lets the hierarchy grow. -/
theorem Effect.settled (hinj : Function.Injective e.supply) (hs : Settled e w)
    (h : Effect e ok w w') : Settled e w' ∧ w.hierarchy.Grows w'.hierarchy := by
  cases h with
  | moved m h hm =>
    -- a call that takes no name enters nothing, and every other call is an entry
    by_cases hdraw : m.draws = 0
    · have hc := Hierarchy.Move.steady hs.openPath hdraw hm
      refine ⟨⟨hc.openPath, ?_⟩, hc.grows⟩
      intro n hn
      have hnone := hs.fresh n (by simpa [hdraw] using hn)
      by_contra hne
      exact (hc.places.ne_none_iff _).1 hne hnone
    · cases m with
      | enter ratio label now =>
        have hfresh := hs.fresh w.drawn (Nat.le_refl _)
        rcases Hierarchy.enter_ok hs.openPath.toIsTree hs.openPath.active_ne_none hm with ⟨p, he⟩
        rcases Hierarchy.OpenPath.enter hs.openPath hfresh he with ⟨hopen, hgrows⟩
        refine ⟨⟨hopen, ?_⟩, hgrows⟩
        intro n hn
        have hlt : w.drawn + 1 ≤ n := hn
        have hne : e.supply n ≠ e.supply w.drawn := fun heq => by
          have := hinj heq
          omega
        -- names that are still to come are other ones than that of the new thread
        have hnone : w.hierarchy.get? (e.supply n) = none := hs.fresh n (by omega)
        show Hierarchy.get? h (e.supply n) = none
        rw [he.get?_old hne, hnone]
        rfl
      | _ => exact absurd rfl hdraw
  | _ => exact ⟨⟨hs.openPath, hs.fresh⟩, .refl _⟩

/-- What each of several changes keeps is kept by all of them together. -/
theorem Settled.along {R : World σ → World σ → Prop}
    (hR : ∀ {a b}, Settled e a → R a b → Settled e b ∧ a.hierarchy.Grows b.hierarchy)
    (hs : Settled e w) (h : ReflTransGen R w w') :
    Settled e w' ∧ w.hierarchy.Grows w'.hierarchy := by
  induction h with
  | refl => exact ⟨hs, .refl _⟩
  | tail _ hlast ih =>
    rcases ih with ⟨hs', hgrows⟩
    rcases hR hs' hlast with ⟨hs'', hgrows'⟩
    exact ⟨hs'', hgrows.trans hgrows'⟩

/-- So do all of them together. -/
theorem Effects.settled (hinj : Function.Injective e.supply) (hs : Settled e w)
    (h : Effects e ok w w') : Settled e w' ∧ w.hierarchy.Grows w'.hierarchy :=
  hs.along (Effect.settled hinj) h

end Playbook
