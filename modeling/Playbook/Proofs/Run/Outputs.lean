import Playbook.Proofs.Run.Cancellation
import Playbook.Proofs.Run.SideBySide

/-! # Where the outputs of a run come from

A walk collects its outputs in its own state. An emission adds one, a record adds one unless it is left to an
orchestration, and a call adds those of the walk that it has called, if it propagates them; what a walk that has
failed or was rejected has collected is gone.

Main statements: `Dispatch.outputs_of_done` says what one node adds, `Standing.rest_outputs` what a walk has
collected at its end, and `Engine.outputs_of_run` what a run hands back, and that only the records at top level
depend on whether it is an orchestration.
-/

namespace Playbook

open Checked (Matches)
open Exec (Yields)

variable {σ : Type} {e : Engine σ} {caller : Caller} {node : Node} {f f' : Frame} {w w' : World σ}

/-! ## Outputs of frames -/

/-- The frame has the same outputs. -/
def Frame.SameOutputs (f f' : Frame) : Prop := f'.outputs = f.outputs

theorem Frame.sameOutputs_of_write {key : String} {value : Json} (h : f.write key value = .ok f') :
    f.SameOutputs f' := by
  rw [write] at h
  cases hr : f.region.insert key value with
  | error cause =>
    rw [hr] at h
    cases h
  | ok r =>
    rw [hr] at h
    cases h
    rfl

namespace Engine

theorem reject_outputs (node : Node) (cause : Error) (f : Frame) :
    Yields (σ := σ) f.SameOutputs (reject caller node cause f) :=
  .bind (.ofExcept fun _ h => Frame.sameOutputs_of_write h) fun _ hf => .behind fun _ => .pure hf

theorem generate_outputs (g : Generate) (f : Frame) : Yields f.SameOutputs (e.generate caller g f) :=
  .behind fun _ => .behind fun _ => .ofExcept fun _ h => Frame.sameOutputs_of_write h

theorem useTool_outputs (t : ToolCall) (f : Frame) : Yields f.SameOutputs (e.useTool caller t f) :=
  .behind fun _ => .behind fun _ => .ofExcept fun _ h => Frame.sameOutputs_of_write h

theorem reflect_outputs (source : String) (f : Frame) : Yields f.SameOutputs (e.reflect caller source f) :=
  .behind fun _ => .behind fun _ => .pure rfl

theorem close_outputs (id : ThreadId) (summarize : Bool) (f : Frame) :
    Yields f.SameOutputs (e.close caller id summarize f) :=
  (close_frame id summarize f).mono fun _ h => h.2.1

theorem closeAll_outputs (ids : List (Option ThreadId)) (f : Frame) :
    Yields f.SameOutputs (e.closeAll caller ids f) := by
  induction ids generalizing f with
  | nil => exact .pure rfl
  | cons entry rest ih =>
    cases entry with
    | none => exact ih _
    | some id =>
      refine .bind (close_outputs id true _) fun f₁ (hf₁ : f₁.outputs = f.outputs) => ?_
      intro w
      exact (ih f₁ w).mono (fun f₂ _ (hf₂ : f₂.outputs = f₁.outputs) => hf₂.trans hf₁) fun _ _ h => h

theorem HandsOver.outputs (h : e.HandsOver caller f f') : f'.outputs = f.outputs := by
  rcases h with rfl | ⟨child, summarize, w, f₁, w₁, w', hall, hclose⟩
  · rfl
  · exact ((close_outputs child summarize f₁).of_eq_ok hclose).trans ((closeAll_outputs _ f).of_eq_ok hall)

theorem enterSession_outputs (o : Opening) (f : Frame) :
    Yields f.SameOutputs (e.enterSession caller node o f) := by
  refine .behind fun entered => ?_
  cases entered with
  | ok id => exact .pure rfl
  | error cause => exact reject_outputs node cause _

theorem leaveSession_outputs (isTop summarize : Bool) (f : Frame) :
    Yields f.SameOutputs (e.leaveSession caller node isTop summarize f) := by
  unfold leaveSession
  split
  · exact close_outputs _ summarize _
  · exact .pure rfl
  · split
    · refine .behind fun h => .behind fun t => ?_
      split
      · exact reject_outputs node _ f
      · exact close_outputs _ summarize f
    · exact reject_outputs node _ f

/-- What a caller takes over from a walk that it has called. -/
theorem absorb_outputs {c : Call} {inline : Bool} {done : WalkEnd} {step : Step}
    (h : absorb c inline done f = .ok (step, f')) :
    f'.outputs = f.outputs ++ if step = .proceed ∧ c.propagate = true then done.frame.outputs else [] := by
  rcases absorb_cases h with ⟨_, rfl, rfl⟩ | ⟨_, rfl, g, hg, rfl⟩
  · simp [Frame.resumed]
  · have hsame : g.outputs = f.outputs := by
      rcases hg with ⟨_, rfl⟩ | ⟨key, _, hwrite⟩
      · rfl
      · exact Frame.sameOutputs_of_write (f := f.resumed inline done) hwrite
    cases c.propagate <;> simp [hsame]

/-- A call that does not lead on behind its node adds nothing. -/
theorem call_outputs (node : Node) (c : Call) (level : Level σ) (f : Frame) :
    Yields (fun done => done.1 ≠ .proceed → f.SameOutputs done.2) (e.call caller node c level f) := by
  have habsorb : ∀ inline (done : WalkEnd), Yields (σ := σ)
      (fun done => done.1 ≠ .proceed → f.SameOutputs done.2) (Exec.ofExcept (absorb c inline done f)) := by
    refine fun inline done => .ofExcept fun a ha hstep => ?_
    rw [Frame.SameOutputs, absorb_outputs ha, if_neg fun h => hstep h.1, List.append_nil]
  refine .behind fun prepared => ?_
  obtain ⟨callee, region, descend⟩ := prepared
  simp only
  split
  · exact .behind fun done => habsorb true done
  · refine .behind fun entered => ?_
    cases entered with
    | error cause => exact .behind fun f => .pure fun h => absurd rfl h
    | ok child => exact .behind fun done => habsorb false done

/-- Nor does one that is recovered. -/
theorem invoke_outputs (node : Node) (c : Call) (level : Level σ) (f : Frame) :
    Yields (fun done => done.1 ≠ .proceed → f.SameOutputs done.2) (e.invoke caller node c level f) := by
  unfold invoke
  cases c.onFailure with
  | none => exact call_outputs node c level f
  | some target =>
    refine .bind (Q := fun r => ∀ done, r = .ok done → done.1 ≠ .proceed → f.SameOutputs done.2) ?_ ?_
    · intro w
      rw [Exec.ends_attempt]
      refine (call_outputs node c level f w).mono ?_ fun cause _ _ done h => nomatch h
      rintro done _ hdone _ ⟨⟩
      exact hdone
    · intro r hr
      cases r with
      | ok done => exact .pure (hr done rfl)
      | error cause => exact .bind (.ofExcept fun _ h => Frame.sameOutputs_of_write h) fun g hg => .pure fun _ => hg

end Engine

/-! ## What a node adds -/

namespace Dispatch

/-- The node is done. -/
def IsDone (e : Engine σ) (caller : Caller) (d : Dispatch σ) : Prop := ∃ done, (d.outcome e caller).1 = .ok done

/-- How the walk that the node calls has ended, if the node then leads on behind its call. -/
def absorbed? (e : Engine σ) (caller : Caller) (d : Dispatch σ) : Option WalkEnd :=
  match (d.outcome e caller).1 with
  | .ok (.proceed, _) => (d.standing.called? e caller d.node).bind fun q => (q.rest e caller).1.toOption
  | _ => none

/-- A text of the node with its placeholders filled in, if that can be done. -/
def said (d : Dispatch σ) (kind : ContributionKind) (source : String) : List Contribution :=
  (Template.render d.standing.frame.region source).toOption.toList.map fun text => ⟨d.node.id, kind, text⟩

/-- What the node adds to the outputs of its walk. -/
def contributions (e : Engine σ) (caller : Caller) (d : Dispatch σ) : List Contribution :=
  match d.node.kind with
  | .emit source => d.said .emission source
  | .record r => if d.depth = 0 ∧ caller.orchestration = true then [] else d.said .record r.content
  | .invoke c => if c.propagate then ((d.absorbed? e caller).map (·.frame.outputs)).getD [] else []
  | _ => []

theorem absorbed?_eq_some {d : Dispatch σ} {done : WalkEnd} (h : d.absorbed? e caller = some done) :
    ∃ f w' q, d.outcome e caller = (.ok (.proceed, f), w') ∧ d.standing.called? e caller d.node = some q ∧
      (q.rest e caller).1 = .ok done := by
  rw [absorbed?] at h
  split at h
  · rename_i f hx
    obtain ⟨q, hq, hend⟩ := Option.bind_eq_some_iff.1 h
    refine ⟨f, _, q, Prod.ext hx rfl, hq, ?_⟩
    cases hr : (q.rest e caller).1 with
    | error cause =>
      rw [hr] at hend
      cases hend
    | ok done' =>
      rw [hr] at hend
      cases hend
      rfl
  · cases h

theorem said_of_ok {d : Dispatch σ} {source text : String}
    (h : Template.render d.standing.frame.region source = .ok text) (kind : ContributionKind) :
    d.said kind source = [⟨d.node.id, kind, text⟩] := by
  rw [said, h]
  rfl

end Dispatch

namespace Engine

/-- An emission is output when it has been delivered. -/
theorem emit_outputs (node : Node) (source : String) (f : Frame) :
    Yields (fun f' => ∃ text, Template.render f.region source = .ok text ∧
      f' = f.contribute ⟨node.id, .emission, text⟩) (e.emit caller node source f) := by
  refine .bind (.ofExcept fun text h => h) fun text htext => ?_
  exact .behind fun _ => .behind fun _ => .behind fun _ => .behind fun _ => .behind fun _ =>
    .pure ⟨text, htext, rfl⟩

/-- A record is output when it has been remembered, but for an orchestration at top level. -/
theorem record_outputs (node : Node) (isTop : Bool) (r : Recording) (f : Frame) :
    Yields (fun f' => ∃ text, Template.render f.region r.content = .ok text ∧
      f' = if isTop && caller.orchestration then f else f.contribute ⟨node.id, .record, text⟩)
      (e.record caller node isTop r f) := by
  refine .bind (.ofExcept fun text h => h) fun text htext => .behind fun _ => ?_
  split
  · exact .pure ⟨text, htext, rfl⟩
  · exact .pure ⟨text, htext, rfl⟩

end Engine

namespace Standing

variable {p q : Standing σ} {c : Call}

/-- A call whose session is rejected leads on, and adds nothing. -/
theorem outputs_of_rejected (hkind : node.kind = .invoke c) (hq : p.called? e caller node = none)
    (hcall : e.call caller node c (e.level caller p.calls) p.frame (p.announced caller node) =
      (.ok (.proceed, f), w')) : p.frame.SameOutputs f := by
  rw [called?_of_kind hkind] at hq
  cases hp : e.prepare c (e.level caller p.calls) p.frame with
  | error cause =>
    rw [Engine.call_of_error hp] at hcall
    cases hcall
  | ok prepared =>
    rcases prepared with ⟨callee, region, descend⟩
    obtain ⟨n, hcalls, rfl⟩ := Engine.descend_level (Engine.prepare_ok hp).2.1
    have hp' := hp
    rw [hcalls] at hp'
    cases hmode : c.mode with
    -- an inline call that has been prepared is never rejected
    | inline => simp [callee?, hcalls, hp', hmode] at hq
    | isolated =>
      rw [Engine.call_isolated hp hmode] at hcall
      obtain ⟨r, w₁, hopen, hrest⟩ := Exec.bind_eq_ok.1 hcall
      cases r with
      | ok child => simp [callee?, hcalls, hp', hmode, hopen] at hq
      | error cause =>
        obtain ⟨f', w₂, hreject, hpure⟩ := Exec.bind_eq_ok.1 hrest
        cases hpure
        exact (Engine.reject_outputs node cause p.frame).of_eq_ok hreject

end Standing

namespace Dispatch

variable {d : Dispatch σ} {step : Step}

/-- A call adds the outputs of the walk that it has called, if it propagates them. -/
theorem outputs_of_call {c : Call} (hkind : d.node.kind = .invoke c)
    (hx : d.outcome e caller = (.ok (step, f), w')) :
    f.outputs = d.standing.frame.outputs ++ d.contributions e caller := by
  have hinvoke : e.invoke caller d.node c (e.level caller d.standing.calls) d.standing.frame
      (d.standing.announced caller d.node) = (.ok (step, f), w') := by
    rw [← hx]
    simp only [outcome, Standing.outcome, Engine.dispatch, hkind]
  simp only [contributions, hkind]
  -- only a call that proceeds has taken something over
  by_cases hstep : step = .proceed
  · cases hstep
    cases hq : d.standing.called? e caller d.node with
    | none =>
      have hsame := Standing.outputs_of_rejected hkind hq (Engine.call_of_invoke_proceed hinvoke)
      simp [absorbed?, hx, hq, hsame.symm]
    | some q =>
      obtain ⟨c', inline, done, done', hkind', hdone, _, hover, habsorb⟩ :=
        Standing.absorbed_of_proceed hq hx
      cases hkind.symm.trans hkind'
      rw [Engine.absorb_outputs habsorb, hover.outputs]
      simp [absorbed?, hx, hq, hdone, Except.toOption]
  · have hsame : d.standing.frame.SameOutputs f := (Engine.invoke_outputs _ _ _ _).of_eq_ok hinvoke hstep
    have hnone : d.absorbed? e caller = none := by
      rw [absorbed?, hx]
      cases step with
      | proceed => exact absurd rfl hstep
      | branch target => rfl
      | halt => rfl
    simp [hnone, hsame.symm]

/-- What holds of every frame that a node can leave which calls nothing. -/
theorem yields_of_done {Q : Frame → Prop} {x : Exec σ Frame} (hx : d.outcome e caller = (.ok (step, f), w'))
    (heq : e.dispatch caller (e.level caller d.standing.calls) d.node d.standing.frame =
      (x >>= fun f => pure (Step.proceed, f))) (hQ : Yields Q x) : Q f := by
  rw [outcome, Standing.outcome, heq] at hx
  obtain ⟨f', w₁, hf', hpure⟩ := Exec.bind_eq_ok.1 hx
  cases hpure
  exact hQ.of_eq_ok hf'

theorem emission_of_done {source : String} (hkind : d.node.kind = .emit source)
    (hx : d.outcome e caller = (.ok (step, f), w')) :
    ∃ text, Template.render d.standing.frame.region source = .ok text ∧
      f = d.standing.frame.contribute ⟨d.node.id, .emission, text⟩ :=
  yields_of_done (x := e.emit caller d.node source d.standing.frame) hx (by simp only [Engine.dispatch, hkind])
    (Engine.emit_outputs d.node source _)

theorem record_of_done {r : Recording} (hkind : d.node.kind = .record r)
    (hdepth : d.depth + d.standing.calls = e.config.engine.maxCallDepth)
    (hx : d.outcome e caller = (.ok (step, f), w')) :
    ∃ text, Template.render d.standing.frame.region r.content = .ok text ∧
      f = if d.depth = 0 ∧ caller.orchestration = true then d.standing.frame
        else d.standing.frame.contribute ⟨d.node.id, .record, text⟩ := by
  have htop : ((e.level caller d.standing.calls).depth == 0) = decide (d.depth = 0) := by
    rw [Engine.level_depth]
    exact decide_eq_decide.2 (by omega)
  obtain ⟨text, htext, hf⟩ :=
    yields_of_done (x := e.record caller d.node (decide (d.depth = 0)) r d.standing.frame) hx
      (by simp only [Engine.dispatch, hkind, htop]) (Engine.record_outputs d.node _ r _)
  refine ⟨text, htext, hf.trans ?_⟩
  simp only [Bool.and_eq_true, decide_eq_true_eq]

/-- At the depth of its walk, a node that is done adds what it contributes to the outputs, and changes nothing
about the others. -/
theorem outputs_of_done (hdepth : d.depth + d.standing.calls = e.config.engine.maxCallDepth)
    (hx : d.outcome e caller = (.ok (step, f), w')) :
    f.outputs = d.standing.frame.outputs ++ d.contributions e caller := by
  -- the other nodes leave the outputs as they are
  have hsame : ∀ x : Exec σ Frame, Yields d.standing.frame.SameOutputs x →
      e.dispatch caller (e.level caller d.standing.calls) d.node d.standing.frame =
        (x >>= fun f => pure (Step.proceed, f)) →
      f.outputs = d.standing.frame.outputs ++ [] :=
    fun x hQ heq => (yields_of_done hx heq hQ : f.outputs = _).trans (List.append_nil _).symm
  cases hkind : d.node.kind with
  | invoke c => exact outputs_of_call hkind hx
  | emit source =>
    obtain ⟨text, htext, rfl⟩ := emission_of_done hkind hx
    simp only [contributions, hkind, said_of_ok htext]
    rfl
  | record r =>
    obtain ⟨text, htext, rfl⟩ := record_of_done hkind hdepth hx
    simp only [contributions, hkind, said_of_ok htext]
    split
    · exact (List.append_nil _).symm
    · rfl
  | generate g =>
    simp only [contributions, hkind]
    exact hsame (e.generate caller g d.standing.frame) (Engine.generate_outputs g _)
      (by simp only [Engine.dispatch, hkind])
  | invokeTool t =>
    simp only [contributions, hkind]
    exact hsame (e.useTool caller t d.standing.frame) (Engine.useTool_outputs t _)
      (by simp only [Engine.dispatch, hkind])
  | reflect source =>
    simp only [contributions, hkind]
    exact hsame (e.reflect caller source d.standing.frame) (Engine.reflect_outputs source _)
      (by simp only [Engine.dispatch, hkind])
  | pass =>
    simp only [contributions, hkind]
    exact hsame (pure d.standing.frame) (.pure rfl) (by simp only [Engine.dispatch, hkind])
  | enterSession o =>
    simp only [contributions, hkind]
    exact hsame (e.enterSession caller d.node o d.standing.frame) (Engine.enterSession_outputs o _)
      (by simp only [Engine.dispatch, hkind])
  | leaveSession summarize =>
    simp only [contributions, hkind]
    let isTop := (e.level caller d.standing.calls).depth == 0
    exact hsame (e.leaveSession caller d.node isTop summarize d.standing.frame)
      (Engine.leaveSession_outputs isTop summarize _) (by simp only [Engine.dispatch, hkind, isTop])

end Dispatch

/-! ## What a walk has collected -/

namespace Standing

variable {p q : Standing σ} {depth : Nat}

/-- A walk that is called starts without outputs. -/
theorem outputs_of_called? (hq : p.called? e caller node = some q) : q.frame.outputs = [] := by
  rcases called?_cases hq with ⟨c, _, hcallee⟩
  rcases callee?_cases hcallee with ⟨_, _, _, _, _, _, ⟨_, rfl⟩ | ⟨_, _, _, _, rfl⟩⟩ <;> rfl

/-- The nodes that the walk dispatches itself, without those of its callees. -/
def own (e : Engine σ) (caller : Caller) (depth : Nat) (p : Standing σ) : List (Dispatch σ) :=
  (p.dispatched e caller depth).filter fun d => d.depth = depth

theorem own_of_not_dispatches (h : ¬ ∃ node, p.Dispatches e node) : p.own e caller depth = [] := by
  rw [own, dispatched_of_not_dispatches h]
  rfl

/-- Everything in the walk of a callee is nested deeper. -/
theorem own_of_dispatches (hd : p.Dispatches e node) :
    p.own e caller depth =
      ⟨depth, p, node⟩ :: (p.onward? e caller node).elim [] (own e caller depth) := by
  have hcalled : ((p.called? e caller node).elim [] (dispatched e caller (depth + 1))).filter
      (fun d => d.depth = depth) = [] := by
    rw [List.filter_eq_nil_iff]
    intro d hmem hsame
    rcases mem_elim.1 hmem with ⟨q, _, hmem⟩
    have hdeeper := (of_mem_dispatched hmem).2.2.1
    have hdepth : d.depth = depth := of_decide_eq_true hsame
    omega
  rw [own, dispatched_of_dispatches hd, List.filter_cons_of_pos (by simp), List.filter_append, hcalled,
    List.nil_append]
  cases p.onward? e caller node <;> rfl

/-- The outputs of a walk that has ended are those that it had before and what its own nodes have added since, in
order; and all of these are done. -/
theorem rest_outputs (p : Standing σ) (depth : Nat) (hdepth : depth + p.calls = e.config.engine.maxCallDepth)
    {done : WalkEnd} (hdone : (p.rest e caller).1 = .ok done) :
    done.frame.outputs =
        p.frame.outputs ++ (p.own e caller depth).flatMap (Dispatch.contributions e caller) ∧
      ∀ d ∈ p.own e caller depth, d.IsDone e caller := by
  -- along the walk: a node that is done adds its contributions, and the rest of the walk adds its own
  induction p using Standing.induction e caller with
  | step p ih =>
    by_cases hdisp : ∃ node, p.Dispatches e node
    · rcases hdisp with ⟨node, hd⟩
      rw [own_of_dispatches hd]
      rcases hx : p.outcome e caller node with ⟨cause | ⟨step, f⟩, w₁⟩
      · rw [rest_of_dispatches hd, hx] at hdone
        cases hdone
      · have hown : Dispatch.IsDone e caller ⟨depth, p, node⟩ := ⟨(step, f), by rw [Dispatch.outcome, hx]⟩
        have hadded := Dispatch.outputs_of_done (d := ⟨depth, p, node⟩) hdepth hx
        cases hq : p.onward? e caller node with
        | none =>
          have hgoal : node.goal? (step, f) = none := by
            rw [onward?, hx] at hq
            exact Option.map_eq_none_iff.1 hq
          rw [rest_of_dispatches hd, hx] at hdone
          simp only [hgoal] at hdone
          cases hdone
          exact ⟨by simpa using hadded, by simpa using hown⟩
        | some q =>
          rw [rest_of_onward? hd hq] at hdone
          have hcalls := (calls_of_onward? hq).1
          obtain ⟨houtputs, hall⟩ := ih q (.of_onward hd hq) (by rw [hcalls, hdepth]) hdone
          have hframe : q.frame = f := by
            rcases onward?_cases hq with ⟨done', goal, w₂, hx', _, rfl⟩
            rw [hx] at hx'
            cases hx'
            rfl
          refine ⟨?_, List.forall_mem_cons.2 ⟨hown, hall⟩⟩
          rw [houtputs, hframe, hadded, Option.elim_some, List.flatMap_cons, List.append_assoc]
    · rw [own_of_not_dispatches hdisp]
      rw [rest_eq_of_not_dispatches hdisp] at hdone
      refine ⟨?_, fun d hd => absurd hd List.not_mem_nil⟩
      split at hdone
      · cases hdone
        exact (List.append_nil _).symm
      · split at hdone <;> cases hdone

end Standing

/-- Where the contributions of a node come from. An emission and a record contribute one text, rendered in the state
of the walk, but a record does not at the top level of an orchestration; a call that propagates contributes the
outputs of the walk that it has called, which has come to its end with the outputs of its own nodes, all of them
done; and nothing else contributes anything. -/
structure Dispatch.Accounted (e : Engine σ) (caller : Caller) (d : Dispatch σ) : Prop where
  emission : ∀ source, d.node.kind = .emit source →
    ∃ text, Template.render d.standing.frame.region source = .ok text ∧
      d.contributions e caller = [⟨d.node.id, .emission, text⟩]
  record : ∀ r, d.node.kind = .record r → ¬ (d.depth = 0 ∧ caller.orchestration = true) →
    ∃ text, Template.render d.standing.frame.region r.content = .ok text ∧
      d.contributions e caller = [⟨d.node.id, .record, text⟩]
  call : ∀ c done, d.node.kind = .invoke c → c.propagate = true → d.absorbed? e caller = some done →
    d.contributions e caller = done.frame.outputs ∧
    ∃ q, d.standing.called? e caller d.node = some q ∧ (q.rest e caller).1 = .ok done ∧
      done.cancelled = false ∧
      done.frame.outputs =
        (q.own e caller (d.depth + 1)).flatMap (Dispatch.contributions e caller) ∧
      ∀ d' ∈ q.own e caller (d.depth + 1), d'.IsDone e caller
  other : d.contributions e caller ≠ [] →
    (∃ source, d.node.kind = .emit source) ∨
      (∃ r, d.node.kind = .record r ∧ ¬ (d.depth = 0 ∧ caller.orchestration = true)) ∨
      ∃ c done, d.node.kind = .invoke c ∧ c.propagate = true ∧ d.absorbed? e caller = some done

/-- Every node that is done accounts for what it contributes. -/
theorem Dispatch.IsDone.accounted {d : Dispatch σ} (h : d.IsDone e caller)
    (hdepth : d.depth + d.standing.calls = e.config.engine.maxCallDepth) : d.Accounted e caller := by
  obtain ⟨⟨step, f⟩, hresult⟩ := h
  have hx : d.outcome e caller = (.ok (step, f), (d.outcome e caller).2) := Prod.ext hresult rfl
  constructor
  · intro source hkind
    obtain ⟨text, htext, _⟩ := emission_of_done hkind hx
    exact ⟨text, htext, by simp only [contributions, hkind, said_of_ok htext]⟩
  · intro r hkind hleft
    obtain ⟨text, htext, _⟩ := record_of_done hkind hdepth hx
    exact ⟨text, htext, by simp only [contributions, hkind, if_neg hleft, said_of_ok htext]⟩
  · intro c done hkind hpropagate hdone
    obtain ⟨f', w', q, hx', hq, hend⟩ := absorbed?_eq_some hdone
    obtain ⟨done', hend', hc⟩ := Standing.called_of_proceed hq hx'
    cases hend.symm.trans hend'
    have hcalls := (Standing.calls_of_called? hq).1
    obtain ⟨houtputs, hall⟩ := Standing.rest_outputs q (d.depth + 1) (by omega) hend
    rw [Standing.outputs_of_called? hq, List.nil_append] at houtputs
    exact ⟨by simp [contributions, hkind, hpropagate, hdone], q, hq, hend, hc, houtputs, hall⟩
  · -- nodes of the other kinds contribute nothing
    intro hsome
    cases hkind : d.node.kind with
    | emit source => exact .inl ⟨source, rfl⟩
    | record r =>
      refine .inr (.inl ⟨r, rfl, fun hleft => hsome ?_⟩)
      simp only [contributions, hkind, if_pos hleft]
    | invoke c =>
      cases hdone : d.absorbed? e caller with
      | none => exact absurd (by simp [contributions, hkind, hdone]) hsome
      | some done =>
        refine .inr (.inr ⟨c, done, rfl, ?_, rfl⟩)
        by_contra hpropagate
        exact hsome (by simp only [contributions, hkind, if_neg hpropagate])
    | _ => exact absurd (by simp only [contributions, hkind]) hsome

/-! ## Orchestrations -/

/-- What a walk at top level outputs may differ, and nothing else. -/
def Likeness.topOutputs (σ : Type) : Likeness σ where
  hosts s is s' is' := s' = s ∧ is' = is
  outputs k l l' := k = 0 ∨ l' = l
  nodes n n' := n' = n
  outputs_refl _ _ := .inr rfl
  outputs_append hl hm := hl.imp_right fun h => by rw [h, hm.resolve_left (Nat.succ_ne_zero _)]
  nodes_shape := @Node.shape_of_eq

/-- The caller, of an orchestration or of a plain run. -/
abbrev Caller.orchestrating (caller : Caller) (orchestration : Bool) : Caller := { caller with orchestration }

namespace Engine

theorem blind_topOutputs (host : Host σ) : (Likeness.topOutputs σ).Blind host := by
  have hsame : ∀ {α : Type} (call : σ → Reply σ α) (note : Except Error α → Interaction),
      (Likeness.topOutputs σ).Hides call call note note := by
    rintro α call note s is _ _ ⟨rfl, rfl⟩
    exact ⟨rfl, rfl, rfl, rfl⟩
  refine ⟨fun _ => hsame _ _, fun _ _ _ => hsame _ _, fun _ => hsame _ _, fun _ _ => hsame _ _, ?_⟩
  rintro s is _ _ ⟨rfl, rfl⟩ events
  rfl

/-- The model is not shown what the run is. -/
theorem sees_topOutputs (b b' : Bool) (name : ProfileName) :
    (Likeness.topOutputs σ).Sees e (caller.orchestrating b) (caller.orchestrating b') name := by
  rintro thread w _ ⟨_, _, ⟨rfl, rfl⟩, rfl⟩
  have hsame : e.context (caller.orchestrating b') name thread = e.context (caller.orchestrating b) name thread :=
    rfl
  rw [hsame]
  exact ⟨⟨_, _, ⟨rfl, rfl⟩, rfl⟩, .refl _⟩

theorem alike_topOutputs (e : Engine σ) : Registry.Alike (.topOutputs σ) e.playbooks e.playbooks :=
  .refl fun _ _ _ _ _ => rfl

end Engine

namespace Standing

variable {p p' : Standing σ} {depth : Nat}

/-- Walks at the same place do the same in both runs, and below top level they collect the same outputs. -/
theorem rest_orchestrating (caller : Caller) (b b' : Bool) (h : p.Alike (.topOutputs σ) depth p')
    (hdepth : depth + p.calls = e.config.engine.maxCallDepth) :
    EndAlike (.topOutputs σ) e e.playbooks (caller.orchestrating b) (caller.orchestrating b') depth p p' ∧
      List.Forall₂ (Dispatch.Alike (.topOutputs σ)) (p.dispatched e (caller.orchestrating b) depth)
        (p'.dispatched e (caller.orchestrating b') depth) := by
  have hagent : (caller.orchestrating b').agent = (caller.orchestrating b).agent := rfl
  refine rest_alike hagent (Engine.blind_topOutputs _) e.alike_topOutputs p p' depth h ?_
  intro d hd d' _ hdd' hcalls
  refine hdd'.doAlike hdd'.nodes hagent (Engine.blind_topOutputs _) (fun g _ => Engine.sees_topOutputs b b' _)
    ?_ hcalls
  -- only a record looks at whether the run orchestrates, and only at top level
  intro hlevel
  have hsum := (of_mem_dispatched hd).2.2.2
  rw [Engine.level_depth] at hlevel
  exact .inr fun _ _ => .inl (by omega)

end Standing

/-- The node keeps a record. -/
def Dispatch.isRecord (d : Dispatch σ) : Bool :=
  match d.node.kind with
  | .record _ => true
  | _ => false

namespace Dispatch

variable {d d' : Dispatch σ}

theorem absorbed?_of_not_called (h : d.standing.called? e caller d.node = none) : d.absorbed? e caller = none := by
  simp only [absorbed?, h, Option.bind_none]
  split <;> rfl

/-- What the caller of a walk takes over from it is the same in both runs. -/
theorem absorbed?_orchestrating (caller : Caller) (b b' : Bool) (h : d.Alike (.topOutputs σ) d')
    (hdepth : d.depth + d.standing.calls = e.config.engine.maxCallDepth) :
    (d'.absorbed? e (caller.orchestrating b')).map (·.frame.outputs) =
      (d.absorbed? e (caller.orchestrating b)).map (·.frame.outputs) := by
  obtain ⟨p', node', hp, hnode, rfl⟩ := h
  have hagent : (caller.orchestrating b').agent = (caller.orchestrating b).agent := rfl
  have hcalled := Standing.called?_alike (e := e) (r := e.playbooks) hagent e.alike_topOutputs hp hnode
  generalize hq : d.standing.called? e (caller.orchestrating b) d.node = o,
    hq' : p'.called? (e.over e.playbooks) (caller.orchestrating b') node' = o' at hcalled
  cases hcalled with
  | none => rw [absorbed?_of_not_called hq, absorbed?_of_not_called hq']
  | @some q q' hqq' =>
    obtain ⟨c, hkind, _⟩ := Standing.called?_cases hq
    have hsum : d.depth + 1 + q.calls = e.config.engine.maxCallDepth := by
      have hcalls := (Standing.calls_of_called? hq).1
      omega
    -- the walks that are called end alike, and therefore the two calls do
    have hends := (Standing.rest_orchestrating caller b b' hqq' hsum).1
    have hdo := Standing.invoke_alike hagent (Engine.blind_topOutputs e.host) e.alike_topOutputs hp hnode hkind
      fun q₁ q₁' h₁ h₁' => by
        cases hq.symm.trans h₁
        cases hq'.symm.trans h₁'
        exact hends
    have hresult : Matches (Frame.StepAlike (.topOutputs σ) d.depth) (d.outcome e (caller.orchestrating b)).1
        (Dispatch.outcome e (caller.orchestrating b') { d with standing := p', node := node' }).1 := by
      simp only [outcome, Standing.outcome, Engine.dispatch, hkind, (Likeness.invoke_iff _ hnode c).2 hkind]
      exact hdo.2
    rw [absorbed?, absorbed?]
    generalize (d.outcome e (caller.orchestrating b)).1 = r, (Dispatch.outcome e (caller.orchestrating b') _).1 = r'
      at hresult
    cases hresult with
    | error cause => rfl
    | @ok a a' hstep =>
      rcases a with ⟨step, f⟩
      rcases a' with ⟨step', f'⟩
      obtain ⟨hsame, _⟩ := hstep
      cases hsame
      cases step with
      | halt => rfl
      | branch target => rfl
      | proceed =>
        have hmatch := hends.2
        simp only [hq, hq', Option.bind_some]
        generalize (q.rest e (caller.orchestrating b)).1 = x, (q'.rest _ (caller.orchestrating b')).1 = x' at hmatch
        cases hmatch with
        | error cause => rfl
        | ok hdone =>
          obtain ⟨_, ⟨outputs, houtputs, rfl⟩, rfl⟩ := hdone
          cases houtputs.resolve_left (Nat.succ_ne_zero _)
          rfl

/-- Only the records of the top level are left out of an orchestration. -/
theorem contributions_orchestrating (caller : Caller) (h : d.Alike (.topOutputs σ) d')
    (hdepth : d.depth + d.standing.calls = e.config.engine.maxCallDepth) (htop : d.depth = 0) :
    d'.contributions e (caller.orchestrating true) =
      if d.isRecord then [] else d.contributions e (caller.orchestrating false) := by
  have habsorbed := absorbed?_orchestrating caller false true h hdepth
  obtain ⟨p', node', hp, hnode, rfl⟩ := h
  cases hnode
  cases hkind : d.node.kind with
  | record r => simp [contributions, isRecord, hkind, htop]
  | invoke c => simp only [contributions, isRecord, hkind, habsorbed, Bool.false_eq_true, if_false]
  | _ => simp [contributions, isRecord, hkind, said, hp.frame.region]

end Dispatch

/-! ## Runs -/

/-- The same outcome with other outputs. -/
def Outcome.withOutputs (o : Outcome) (outputs : List Contribution) : Outcome :=
  { o with outputs, frame := { o.frame with outputs } }

namespace Engine

variable {name : String} {args : Dict Json}

/-- The nodes that a run dispatches at top level, in order. -/
def own (e : Engine σ) (caller : Caller) (name : String) (args : Dict Json) (w : World σ) : List (Dispatch σ) :=
  (e.dispatched caller name args w).filter fun d => d.depth = 0

/-- What its nodes at top level contribute other than records of their own. -/
def kept (e : Engine σ) (caller : Caller) (name : String) (args : Dict Json) (w : World σ) : List Contribution :=
  ((e.own caller name args w).filter fun d => !d.isRecord).flatMap (Dispatch.contributions e caller)

theorem depth_of_mem_own {d : Dispatch σ} (h : d ∈ e.own caller name args w) :
    d.depth = 0 ∧ d.depth + d.standing.calls = e.config.engine.maxCallDepth := by
  obtain ⟨hmem, hdepth⟩ := List.mem_filter.1 h
  exact ⟨of_decide_eq_true hdepth, (mem_dispatched_iff.1 hmem).2.2⟩

/-- What a run has collected when its walk has ended. -/
theorem start_outputs {done : WalkEnd} (hdone : (e.start caller name args w.hierarchy.active w).1 = .ok done) :
    done.frame.outputs = (e.own caller name args w).flatMap (Dispatch.contributions e caller) ∧
      ∀ d ∈ e.own caller name args w, d.IsDone e caller := by
  cases hb : e.bindArguments name args with
  | error cause =>
    rw [start_of_error hb] at hdone
    cases hdone
  | ok bound =>
    rcases bound with ⟨d, region⟩
    rw [own, dispatched_of_ok hb]
    rw [start_eq_rest hb] at hdone
    exact Standing.rest_outputs _ 0 (Nat.zero_add _) hdone

/-- The walks of a plain run and of an orchestration end in the same world, and either fail of the same cause or
differ at most in what they have collected. -/
theorem start_orchestrating (e : Engine σ) (caller : Caller) (name : String) (args : Dict Json) (w : World σ) :
    Exec.CoupledAt (World.Alike (.topOutputs σ)) (WalkEnd.Alike (.topOutputs σ) 0)
        (e.start (caller.orchestrating false) name args w.hierarchy.active)
        (e.start (caller.orchestrating true) name args w.hierarchy.active) w w ∧
      List.Forall₂ (Dispatch.Alike (.topOutputs σ)) (e.dispatched (caller.orchestrating false) name args w)
        (e.dispatched (caller.orchestrating true) name args w) := by
  -- the worlds are the same at the start, only the callers differ
  have hworld : ∀ w : World σ, World.Alike (.topOutputs σ) w w :=
    fun w => ⟨w.host, w.interactions, ⟨rfl, rfl⟩, rfl⟩
  cases hb : e.bindArguments name args with
  | error cause =>
    rw [Exec.CoupledAt, start_of_error hb, start_of_error hb, dispatched_of_error hb, dispatched_of_error hb]
    exact ⟨⟨hworld w, .error cause⟩, .nil⟩
  | ok bound =>
    rcases bound with ⟨d, region⟩
    rw [Exec.CoupledAt, start_eq_rest hb, start_eq_rest hb, dispatched_of_ok hb, dispatched_of_ok hb]
    exact Standing.rest_orchestrating caller false true
      (Standing.start_alike (.refl fun _ _ => rfl) _ _ _ (hworld _)) (Nat.zero_add _)

/-- The outputs of an orchestration are those of the plain run without the records of the top level. -/
theorem own_orchestrating (e : Engine σ) (caller : Caller) (name : String) (args : Dict Json) (w : World σ)
    (h : List.Forall₂ (Dispatch.Alike (.topOutputs σ)) (e.dispatched (caller.orchestrating false) name args w)
      (e.dispatched (caller.orchestrating true) name args w)) :
    (e.own (caller.orchestrating true) name args w).flatMap
        (Dispatch.contributions e (caller.orchestrating true)) =
      e.kept (caller.orchestrating false) name args w := by
  have hown : List.Forall₂ (Dispatch.Alike (.topOutputs σ)) (e.own (caller.orchestrating false) name args w)
      (e.own (caller.orchestrating true) name args w) :=
    List.rel_filter (fun d d' hdd' => by simp only [hdd'.depth]) h
  have hdepth : ∀ d ∈ e.own (caller.orchestrating false) name args w,
      d.depth = 0 ∧ d.depth + d.standing.calls = e.config.engine.maxCallDepth := fun d => depth_of_mem_own
  rw [kept]
  -- dispatch by dispatch; with orchestration the records of the top level are left out
  generalize e.own (caller.orchestrating false) name args w = l, e.own (caller.orchestrating true) name args w = l'
    at hown hdepth
  induction hown with
  | nil => rfl
  | @cons d d' l l' hdd' _ ih =>
    obtain ⟨hd, hrest⟩ := List.forall_mem_cons.1 hdepth
    rw [List.flatMap_cons, ih hrest, Dispatch.contributions_orchestrating caller hdd' hd.2 hd.1, List.filter_cons]
    cases d.isRecord <;> simp

/-- Whether a run orchestrates changes its outputs alone, and the number of outputs that its observers are
told. -/
theorem run_orchestrating (e : Engine σ) (caller : Caller) (name : String) (args : Dict Json) (w : World σ) :
    (∃ cause w', e.run (caller.orchestrating false) name args w = (.error cause, w') ∧
        e.run (caller.orchestrating true) name args w = (.error cause, w')) ∨
      ∃ (o o' : Outcome) (w' : World σ),
        o' = o.withOutputs (e.kept (caller.orchestrating false) name args w) ∧
        e.run (caller.orchestrating false) name args w =
          (.ok o, w'.told caller.agent.id [.ending name (.ok o)]) ∧
        e.run (caller.orchestrating true) name args w =
          (.ok o', w'.told caller.agent.id [.ending name (.ok o')]) := by
  obtain ⟨⟨hworld, hresult⟩, hdispatched⟩ := start_orchestrating e caller name args w
  have hkept : ∀ done, (e.start (caller.orchestrating true) name args w.hierarchy.active w).1 = .ok done →
      done.frame.outputs = _ :=
    fun done hdone => (start_outputs hdone).1.trans (own_orchestrating e caller name args w hdispatched)
  -- the end of a run leaves the outputs alone
  rw [run_eq, run_eq]
  generalize e.start (caller.orchestrating false) name args w.hierarchy.active w = x,
    e.start (caller.orchestrating true) name args w.hierarchy.active w = y at hworld hresult hkept
  rcases x with ⟨r, w₁⟩
  rcases y with ⟨r', w₁'⟩
  obtain ⟨_, _, ⟨rfl, rfl⟩, rfl⟩ := hworld
  cases hresult with
  | error cause =>
    left
    simp only
    split <;> exact ⟨_, _, rfl, rfl⟩
  | @ok done _ hdone =>
    obtain ⟨_, ⟨outputs, _, rfl⟩, rfl⟩ := hdone
    have houtputs : outputs = _ := hkept _ rfl
    rw [← houtputs]
    simp only
    split
    · split
      · rename_i h ids _
        let o : Outcome := ⟨.cancelled, done.frame.outputs, done.steps, w₁.usage, w₁.trace,
          { done.frame with thread := h.active }⟩
        let w' : World σ := { w₁.told caller.agent.id (ids.map .threadAborted) with hierarchy := h }
        refine .inr ⟨o, _, w', rfl, ?_, ?_⟩
        all_goals simp [o, w', World.told, Happening.ending, Outcome.withOutputs]
      · exact .inl ⟨_, _, rfl, rfl⟩
    · exact .inr ⟨_, _, _, rfl, rfl, rfl⟩

/-- Where the outputs of a run come from. The outputs of a run that ends are those of the nodes that it has
dispatched at top level, in order, and all of these are done; every node that is done, at whatever depth, accounts
for what it contributes; and a plain run and an orchestration fail of the same cause in the same world, or they
end alike, but that the orchestration outputs no records of the top level. -/
theorem outputs_of_run (e : Engine σ) (caller : Caller) (name : String) (args : Dict Json) (w : World σ) :
    (∀ o, (e.run caller name args w).1 = .ok o →
      o.outputs = (e.own caller name args w).flatMap (Dispatch.contributions e caller) ∧
        ∀ d ∈ e.own caller name args w, d.IsDone e caller) ∧
    (∀ d ∈ e.dispatched caller name args w, d.IsDone e caller → d.Accounted e caller) ∧
    ((∃ cause w', e.run (caller.orchestrating false) name args w = (.error cause, w') ∧
        e.run (caller.orchestrating true) name args w = (.error cause, w')) ∨
      ∃ (o o' : Outcome) (w' : World σ),
        o' = o.withOutputs (e.kept (caller.orchestrating false) name args w) ∧
        e.run (caller.orchestrating false) name args w =
          (.ok o, w'.told caller.agent.id [.ending name (.ok o)]) ∧
        e.run (caller.orchestrating true) name args w =
          (.ok o', w'.told caller.agent.id [.ending name (.ok o')])) := by
  refine ⟨fun o hrun => ?_, fun d hd hdone => hdone.accounted (mem_dispatched_iff.1 hd).2.2,
    run_orchestrating e caller name args w⟩
  obtain ⟨done, hdone, houtputs, _⟩ := start_of_run_ok hrun
  rw [houtputs]
  exact start_outputs hdone

end Engine

/-! ## An errand -/

namespace Errand

/-- Says something and remembers it. -/
def stall : Definition where
  graph := ⟨"stall", none, "offer", [],
    [⟨"offer", .emit "fresh bread", some "sell", []⟩, ⟨"sell", .record ⟨"a loaf", [], none⟩, none, []⟩]⟩
  sound := ⟨Schema.truthValues, by decide⟩

/-- Speaks for itself, calls the stall twice, of which it tells only once, thinks by itself, and slips on the way
home. -/
def errand : Definition where
  graph := ⟨"errand", none, "greet", [],
    [⟨"greet", .emit "good morning", some "note", []⟩,
      ⟨"note", .record ⟨"out at eight", [], none⟩, some "buy", []⟩,
      ⟨"buy", .invoke ⟨"stall", .empty, .inline, true, none, none, none, false⟩, some "look", []⟩,
      ⟨"look", .invoke ⟨"stall", .empty, .isolated, false, none, none, none, false⟩, some "think", []⟩,
      ⟨"think", .reflect "too much bread", some "climb", []⟩,
      ⟨"climb", .invoke ⟨"slip", .empty, .inline, true, none, some "home", none, false⟩, none, []⟩,
      ⟨"home", .pass, none, []⟩]⟩
  sound := ⟨Schema.truthValues, by decide⟩

def engine : Engine Unit :=
  { Tour.engine with
    playbooks := (Registry.ofDefinitions [stall, Tour.slip, errand]).toOption.getD .empty }

end Errand

/-- What was bought is told once, and that the errand began at eight only in a plain run. -/
theorem Errand.outputs_of_errand :
    ∃ o o', (Errand.engine.run Outing.traveller "errand" .empty Outing.world).1 = .ok o ∧
      (Errand.engine.run (Outing.traveller.orchestrating true) "errand" .empty Outing.world).1 = .ok o' ∧
      o.outputs = (Errand.engine.own Outing.traveller "errand" .empty Outing.world).flatMap
        (Dispatch.contributions Errand.engine Outing.traveller) ∧
      o.outputs = [⟨"greet", .emission, "good morning"⟩, ⟨"note", .record, "out at eight"⟩,
        ⟨"offer", .emission, "fresh bread"⟩, ⟨"sell", .record, "a loaf"⟩] ∧
      o' = o.withOutputs [⟨"greet", .emission, "good morning"⟩, ⟨"offer", .emission, "fresh bread"⟩,
        ⟨"sell", .record, "a loaf"⟩] := by
  have hplain : (Errand.engine.run (Outing.traveller.orchestrating false) "errand" .empty
      Outing.world).1.toOption.map Outcome.outputs = some [⟨"greet", .emission, "good morning"⟩,
        ⟨"note", .record, "out at eight"⟩, ⟨"offer", .emission, "fresh bread"⟩, ⟨"sell", .record, "a loaf"⟩] := by
    decide +kernel
  have horchestration : (Errand.engine.run (Outing.traveller.orchestrating true) "errand" .empty
      Outing.world).1.toOption.map Outcome.outputs = some [⟨"greet", .emission, "good morning"⟩,
        ⟨"offer", .emission, "fresh bread"⟩, ⟨"sell", .record, "a loaf"⟩] := by decide +kernel
  obtain ⟨hsources, _, ⟨cause, w', hrun, _⟩ | ⟨o, o', w', ho', hrun, hrun'⟩⟩ :=
    Engine.outputs_of_run Errand.engine Outing.traveller "errand" .empty Outing.world
  · rw [hrun] at hplain
    cases hplain
  · rw [hrun] at hplain
    rw [hrun'] at horchestration
    have hok : (Errand.engine.run Outing.traveller "errand" .empty Outing.world).1 = .ok o :=
      congrArg Prod.fst hrun
    have hkept : (o.withOutputs _).outputs = _ := ho' ▸ Option.some.inj horchestration
    refine ⟨o, o', hok, congrArg Prod.fst hrun', (hsources o hok).1, Option.some.inj hplain, ?_⟩
    rw [ho', ← hkept]
    rfl

end Playbook
