import Playbook.Proofs.Run.Likeness

/-! # Walks side by side

Two walks through playbooks that are alike dispatch corresponding nodes in corresponding worlds, one after the
other and at every call depth, as long as every two nodes which they dispatch side by side do alike by
themselves.

Main statements: `Standing.rest_alike` says so of walks from a standing on, `Engine.start_alike` of the walk of a
run, and `Engine.run_alike` of runs.
-/

namespace Playbook

open Checked (Matches)
open Exec (Coupled CoupledAt)

variable {σ : Type} {L : Likeness σ} {k : Nat} {e : Engine σ} {r : Registry} {caller caller' : Caller}
  {node node' : Node} {f f' : Frame}

/-! ## Calls -/

/-- Playbooks with the same parameters take the same arguments. -/
theorem Definition.checkArguments_congr {d d' : Definition} (h : d'.paramNames = d.paramNames)
    (supplied : List String) : d'.checkArguments supplied = d.checkArguments supplied := by
  simp only [checkArguments, h]

namespace Engine

/-- Two callees alike, with the same region. -/
def PreparedAlike (L : Likeness σ) {β β' : Type} (a : Definition × Region × β)
    (b : Definition × Region × β') : Prop :=
  a.1.Alike L b.1 ∧ b.2.1 = a.2.1

/-- The same name finds playbooks that are alike, or is missing in both registries. -/
theorem require_alike (hplaybooks : Registry.Alike L e.playbooks r) (name : String) :
    Matches (Definition.Alike L) (e.playbooks.require name) (r.require name) := by
  have hrel := hplaybooks name
  rw [Registry.require, Registry.require]
  generalize e.playbooks.get? name = o, r.get? name = o' at hrel
  cases hrel with
  | none => exact .error _
  | some h => exact .ok h

/-- A call is prepared alike, or fails for the same cause. -/
theorem prepare_alike (caller caller' : Caller) (hplaybooks : Registry.Alike L e.playbooks r) (c : Call) (calls : Nat)
    (hf : f.Alike L k f') :
    Matches (PreparedAlike L) (e.prepare c (e.level caller calls) f)
      ((e.over r).prepare c ((e.over r).level caller' calls) f') := by
  rw [prepare, prepare, hf.region]
  -- each step of the preparation succeeds on both sides or fails with the same error
  refine (require_alike hplaybooks c.playbook).bind fun callee callee' hcallee => ?_
  cases calls with
  | zero => exact .error _
  | succ n =>
    refine (Matches.refl (Template.resolveArgs f.region c.args)).bind ?_
    rintro args _ rfl
    simp only [Definition.checkArguments_congr hcallee.params, hcallee.name]
    cases callee.checkArguments args.keys with
    | error reason => exact .error _
    | ok accepted =>
      refine (Matches.refl (Region.ofArgs args)).bind ?_
      rintro region _ rfl
      exact .ok ⟨hcallee, rfl⟩

/-- Frames that are alike stay so when they absorb walks that are alike. -/
theorem absorb_alike (c : Call) (inline : Bool) {done done' : WalkEnd} (hdone : done.Alike L (k + 1) done')
    (hf : f.Alike L k f') :
    Matches (Frame.StepAlike L k) (absorb c inline done f) (absorb c inline done' f') := by
  obtain ⟨_, ⟨called, hcalled, rfl⟩, rfl⟩ := hdone
  obtain ⟨outputs, ho, rfl⟩ := hf
  have hback : Frame.Alike L k
      { f with
        thread := if inline then done.frame.thread else f.thread
        sessions := done.frame.sessions ++ f.sessions }
      { f with
        outputs
        thread := if inline then done.frame.thread else f.thread
        sessions := done.frame.sessions ++ f.sessions } := ⟨outputs, ho, rfl⟩
  -- outputs that are alike on both sides stay so when those of the callee are added
  have hpropagate : ∀ {g g' : Frame}, g.Alike L k g' →
      Matches (Frame.StepAlike L k)
        (.ok (.proceed, if c.propagate then { g with outputs := g.outputs ++ done.frame.outputs } else g) :
          Except Error (Step × Frame))
        (.ok (.proceed, if c.propagate then { g' with outputs := g'.outputs ++ called } else g')) := by
    rintro g _ ⟨outputs, ho, rfl⟩
    refine .ok ⟨rfl, ?_⟩
    cases c.propagate with
    | true => exact ⟨_, L.outputs_append ho hcalled, rfl⟩
    | false => exact ⟨_, ho, rfl⟩
  simp only [absorb]
  split
  · exact .ok ⟨rfl, hback⟩
  · cases c.outputKey with
    | none => exact hpropagate hback
    | some key => exact (hback.write key _).bind fun _ _ hg => hpropagate hg

section

variable {callee callee' : Definition} {region : Region} {descend descend' : Definition → Frame → Exec σ WalkEnd}
  {w w' : World σ}

/-- Inline calls are alike if the called walks are. -/
theorem callInline_alike (hagent : caller'.agent = caller.agent) (hf : f.Alike L k f')
    (hwalk : CoupledAt (World.Alike L) (WalkEnd.Alike L (k + 1)) (descend callee (.start region f.thread))
      (descend' callee' (.start region f.thread)) w w') :
    CoupledAt (World.Alike L) (WalkEnd.Alike L (k + 1)) (e.callInline caller callee region descend f)
      ((e.over r).callInline caller' callee' region descend' f') w w' := by
  obtain ⟨outputs, ho, rfl⟩ := hf
  rw [callInline_eq, callInline_eq, hagent]
  refine .bind hwalk.attempt ?_
  rintro _ _ w₁ w₁' _ _ (cause | hdone) hw
  · exact (Coupled.next (.aborting _ _) fun _ => .throw cause) _ _ hw
  · exact Coupled.pure hdone _ _ hw

/-- So are walks in a session of their own, with what closes it. -/
theorem walkIsolated_alike (hagent : caller'.agent = caller.agent) (hmodel : L.Answers e.host) (summarize : Bool)
    (child : ThreadId)
    (hwalk : CoupledAt (World.Alike L) (WalkEnd.Alike L (k + 1)) (descend callee (.start region child))
      (descend' callee' (.start region child)) w w') :
    CoupledAt (World.Alike L) (WalkEnd.Alike L (k + 1))
      (e.walkIsolated caller callee region descend summarize child)
      ((e.over r).walkIsolated caller' callee' region descend' summarize child) w w' := by
  refine .bind hwalk ?_
  rintro done _ w₁ w₁' _ _ ⟨f', hf, rfl⟩ hw
  simp only
  split
  · exact Coupled.pure ⟨f', hf, rfl⟩ _ _ hw
  · -- both sides close the same sessions
    have hsessions : f'.sessions = done.frame.sessions := by
      obtain ⟨_, _, rfl⟩ := hf
      rfl
    rw [hsessions]
    have hclosed : Coupled (World.Alike L) (WalkEnd.Alike L (k + 1))
        (e.closeAll caller done.frame.sessions done.frame >>= fun f =>
          e.close caller child summarize f >>= fun f => pure { done with frame := f })
        ((e.over r).closeAll caller' done.frame.sessions f' >>= fun f =>
          (e.over r).close caller' child summarize f >>= fun f => pure { done with frame := f }) :=
      (closeAll_alike hagent hmodel _ hf).bind fun _ _ hf =>
        (close_alike hagent hmodel child summarize hf).bind fun _ _ hf => .pure ⟨_, hf, rfl⟩
    exact hclosed _ _ hw

/-- So are isolated calls, with what aborts a session that is not closed. -/
theorem callIsolated_alike (hagent : caller'.agent = caller.agent) (hmodel : L.Answers e.host) (summarize : Bool)
    (child : ThreadId)
    (hwalk : CoupledAt (World.Alike L) (WalkEnd.Alike L (k + 1)) (descend callee (.start region child))
      (descend' callee' (.start region child)) w w') :
    CoupledAt (World.Alike L) (WalkEnd.Alike L (k + 1))
      (e.callIsolated caller callee region descend summarize child)
      ((e.over r).callIsolated caller' callee' region descend' summarize child) w w' := by
  rw [callIsolated_eq, callIsolated_eq, hagent]
  refine .bind (walkIsolated_alike hagent hmodel summarize child hwalk).attempt ?_
  rintro _ _ w₁ w₁' _ _ (cause | @⟨done, _, f', hf, rfl⟩) hw
  · exact (Coupled.next (.aborting _ _) fun _ => .throw cause) _ _ hw
  · simp only
    split
    · exact (Coupled.next (.aborting _ _) fun _ => .pure ⟨f', hf, rfl⟩) _ _ hw
    · exact Coupled.pure ⟨f', hf, rfl⟩ _ _ hw

end

end Engine

/-! ## Walks -/

/-- The walks stand at the same place of playbooks that are alike. -/
def Standing.Alike (L : Likeness σ) (k : Nat) (p p' : Standing σ) : Prop :=
  ∃ playbook frame world, p.playbook.Alike L playbook ∧ p.frame.Alike L k frame ∧ p.world.Alike L world ∧
    p' = { p with playbook, frame, world }

/-- Two nodes that correspond are dispatched at the same place. -/
def Dispatch.Alike (L : Likeness σ) (d d' : Dispatch σ) : Prop :=
  ∃ standing node, d.standing.Alike L d.depth standing ∧ L.nodes d.node node ∧
    d' = { d with standing, node }

/-- What two nodes do leaves their walks alike. -/
def Dispatch.DoAlike (L : Likeness σ) (e : Engine σ) (r : Registry) (caller caller' : Caller)
    (d d' : Dispatch σ) : Prop :=
  World.Alike L (d.outcome e caller).2 (d'.outcome (e.over r) caller').2 ∧
    Matches (Frame.StepAlike L d.depth) (d.outcome e caller).1 (d'.outcome (e.over r) caller').1

/-- Two walks go on alike to their ends. -/
def Standing.EndAlike (L : Likeness σ) (e : Engine σ) (r : Registry) (caller caller' : Caller) (k : Nat)
    (p p' : Standing σ) : Prop :=
  World.Alike L (p.rest e caller).2 (p'.rest (e.over r) caller').2 ∧
    Matches (WalkEnd.Alike L k) (p.rest e caller).1 (p'.rest (e.over r) caller').1

namespace Standing

variable {p p' : Standing σ}

namespace Alike

theorem calls (h : p.Alike L k p') : p'.calls = p.calls := by
  obtain ⟨_, _, _, _, _, _, rfl⟩ := h
  rfl

theorem made (h : p.Alike L k p') : p'.made = p.made := by
  obtain ⟨_, _, _, _, _, _, rfl⟩ := h
  rfl

theorem place (h : p.Alike L k p') : p'.node = p.node := by
  obtain ⟨_, _, _, _, _, _, rfl⟩ := h
  rfl

theorem playbook (h : p.Alike L k p') : p.playbook.Alike L p'.playbook := by
  obtain ⟨_, _, _, hd, _, _, rfl⟩ := h
  exact hd

theorem frame (h : p.Alike L k p') : p.frame.Alike L k p'.frame := by
  obtain ⟨_, _, _, _, hf, _, rfl⟩ := h
  exact hf

theorem world (h : p.Alike L k p') : World.Alike L p.world p'.world := by
  obtain ⟨_, _, _, _, _, hw, rfl⟩ := h
  exact hw

end Alike

/-- Alike nodes are announced by the same event. -/
theorem announced_alike (hagent : caller'.agent = caller.agent) (h : p.Alike L k p')
    (hnode : L.nodes node node') : World.Alike L (p.announced caller node) (p'.announced caller' node') := by
  obtain ⟨kind, rfl, _, _⟩ := L.nodes_shape hnode
  obtain ⟨d', f', _, hd, _, ⟨host, interactions, hw, rfl⟩, rfl⟩ := h
  refine ⟨host, interactions, hw, ?_⟩
  simp only [announced, World.announced, hagent, hd.name]

/-- Alike standings dispatch alike nodes, or none. -/
theorem dispatching?_alike (hhost : L.Blind e.host) (h : p.Alike L k p') :
    Option.Rel L.nodes (p.dispatching? e) (p'.dispatching? (e.over r)) := by
  simp only [dispatching?, hhost.stops_eq h.world, h.made, h.place]
  split
  · exact h.playbook.node p.node
  · exact .none

/-- Playbooks that are alike start alike. -/
theorem start_alike {callee callee' : Definition} (h : callee.Alike L callee') (calls : Nat) (region : Region)
    (thread : ThreadId) {w w' : World σ} (hw : World.Alike L w w') :
    Alike L k (start calls callee region thread w) (start calls callee' region thread w') := by
  refine ⟨callee', .start region thread, w', h, .refl _, hw, ?_⟩
  obtain ⟨host, interactions, _, rfl⟩ := hw
  simp only [start, h.start]

theorem called?_of_not_invoke (h : ∀ c, node.kind ≠ .invoke c) : p.called? e caller node = none := by
  cases hq : p.called? e caller node with
  | none => rfl
  | some q =>
    rcases called?_cases hq with ⟨c, hc, _⟩
    exact absurd hc (h c)

/-- The node calls the same walk, one call deeper, or none. -/
theorem called?_alike (hagent : caller'.agent = caller.agent) (hplaybooks : Registry.Alike L e.playbooks r)
    (h : p.Alike L k p') (hnode : L.nodes node node') :
    Option.Rel (Alike L (k + 1)) (p.called? e caller node) (p'.called? (e.over r) caller' node') := by
  have hworld := announced_alike hagent h hnode
  by_cases hkind : ∃ c, node.kind = .invoke c
  · rcases hkind with ⟨c, hkind⟩
    rw [called?_of_kind hkind, called?_of_kind ((L.invoke_iff hnode c).2 hkind)]
    have hprepare := Engine.prepare_alike caller caller' hplaybooks c p.calls h.frame
    simp only [callee?, h.calls]
    cases hcalls : p.calls with
    | zero => exact .none
    | succ n =>
      rw [hcalls] at hprepare
      generalize e.prepare c (e.level caller (n + 1)) p.frame = prepared,
        (e.over r).prepare c ((e.over r).level caller' (n + 1)) p'.frame = prepared' at hprepare
      cases hprepare with
      | error cause => exact .none
      | @ok a b hab =>
        rcases a with ⟨callee, region, descend⟩
        rcases b with ⟨callee', region', descend'⟩
        obtain ⟨hcallee, hregion⟩ := hab
        cases hregion
        simp only
        -- the callee starts in the thread of its caller, or in one that is opened for it
        cases c.mode with
        | inline =>
          simp only [h.frame.thread]
          exact .some (start_alike hcallee n _ _ hworld)
        | isolated =>
          obtain ⟨hw, hresult⟩ := Engine.open?_alike (e := e) (r := r) hagent c.windowRatio
            (some callee.name) _ _ hworld
          simp only [hcallee.name]
          generalize e.open? caller c.windowRatio (some callee.name) (p.announced caller node) = x,
            (e.over r).open? caller' c.windowRatio (some callee.name) _ = y at hw hresult
          rcases x with ⟨result, w₁⟩
          rcases y with ⟨result', w₁'⟩
          cases hresult with
          | error cause => exact .none
          | @ok opened _ hopened =>
            cases hopened
            cases opened with
            | error cause => exact .none
            | ok child => exact .some (start_alike hcallee n _ _ hw)
  · rw [called?_of_not_invoke fun c hc => hkind ⟨c, hc⟩,
      called?_of_not_invoke fun c hc => hkind ⟨c, (L.invoke_iff hnode c).1 hc⟩]
    exact .none

/-- A call leaves its callers alike if the walk that it calls ends alike in both runs. -/
theorem call_alike (hagent : caller'.agent = caller.agent) (hhost : L.Blind e.host)
    (hplaybooks : Registry.Alike L e.playbooks r) (h : p.Alike L k p') (hnode : L.nodes node node') {c : Call}
    (hkind : node.kind = .invoke c)
    (hwalk : ∀ q q', p.called? e caller node = some q → p'.called? (e.over r) caller' node' = some q' →
      EndAlike L e r caller caller' (k + 1) q q') :
    CoupledAt (World.Alike L) (Frame.StepAlike L k) (e.call caller node c (e.level caller p.calls) p.frame)
      ((e.over r).call caller' node' c ((e.over r).level caller' p'.calls) p'.frame)
      (p.announced caller node) (p'.announced caller' node') := by
  have hworld := announced_alike hagent h hnode
  have hprepare := Engine.prepare_alike caller caller' hplaybooks c p.calls h.frame
  rw [called?_of_kind hkind, called?_of_kind ((L.invoke_iff hnode c).2 hkind)] at hwalk
  simp only [callee?, h.calls] at hwalk
  rw [h.calls]
  cases hp : e.prepare c (e.level caller p.calls) p.frame with
  | error cause =>
    rw [hp] at hprepare
    rw [Engine.call_of_error hp, Engine.call_of_error hprepare.eq_error]
    exact Coupled.throw cause _ _ hworld
  | ok prepared =>
    rw [hp] at hprepare
    obtain ⟨prepared', hp', hcallee, hregion⟩ := hprepare.eq_ok
    rcases prepared with ⟨callee, region, descend⟩
    rcases prepared' with ⟨callee', region', descend'⟩
    cases hregion
    obtain ⟨n, hcalls, rfl⟩ := Engine.descend_level (Engine.prepare_ok hp).2.1
    obtain ⟨n', hcalls', rfl⟩ := Engine.descend_level (Engine.prepare_ok hp').2.1
    obtain rfl : n' = n := by omega
    -- both calls lead to the start of their callees
    have hends : ∀ thread w w', EndAlike L e r caller caller' (k + 1) (start n' callee region thread w)
        (start n' callee' region thread w') →
        CoupledAt (World.Alike L) (WalkEnd.Alike L (k + 1)) (e.walk caller n' callee (.start region thread))
          ((e.over r).walk caller' n' callee' (.start region thread)) w w' := by
      intro thread w w' hend
      rw [CoupledAt, walk_eq_rest, walk_eq_rest]
      exact hend
    have hname : callee'.name = callee.name := hcallee.name
    rw [hcalls] at hp hp' hwalk ⊢
    simp only [hp, hp'] at hwalk
    cases hmode : c.mode with
    | inline =>
      rw [Engine.call_inline hp hmode, Engine.call_inline hp' hmode]
      simp only [hmode, h.frame.thread] at hwalk
      refine .bind (Engine.callInline_alike hagent h.frame (hends _ _ _ (hwalk _ _ rfl rfl))) ?_
      intro done done' _ _ _ _ hdone hw
      exact Coupled.ofExcept (Engine.absorb_alike c true hdone h.frame) _ _ hw
    | isolated =>
      rw [Engine.call_isolated hp hmode, Engine.call_isolated hp' hmode, hname]
      simp only [hmode, hname] at hwalk
      refine .bind (Engine.open?_alike hagent _ _ _ _ hworld) ?_
      rintro opened _ w₁ w₁' ho ho' rfl hw
      cases opened with
      | error cause =>
        obtain ⟨_, hid, _⟩ := L.nodes_shape hnode
        have hreject := Engine.reject_alike node node' hagent (by rw [hid]) cause h.frame
        exact (hreject.bind fun _ _ hf => .pure ⟨rfl, hf⟩) _ _ hw
      | ok child =>
        simp only [ho, ho'] at hwalk
        refine .bind (Engine.callIsolated_alike hagent hhost.generate c.summarize child
          (hends _ _ _ (hwalk _ _ rfl rfl))) ?_
        intro done done' _ _ _ _ hdone hw
        exact Coupled.ofExcept (Engine.absorb_alike c false hdone h.frame) _ _ hw

/-- So does a node that calls, wherever it leads on failure. -/
theorem invoke_alike (hagent : caller'.agent = caller.agent) (hhost : L.Blind e.host)
    (hplaybooks : Registry.Alike L e.playbooks r) (h : p.Alike L k p') (hnode : L.nodes node node') {c : Call}
    (hkind : node.kind = .invoke c)
    (hwalk : ∀ q q', p.called? e caller node = some q → p'.called? (e.over r) caller' node' = some q' →
      EndAlike L e r caller caller' (k + 1) q q') :
    CoupledAt (World.Alike L) (Frame.StepAlike L k) (e.invoke caller node c (e.level caller p.calls) p.frame)
      ((e.over r).invoke caller' node' c ((e.over r).level caller' p'.calls) p'.frame)
      (p.announced caller node) (p'.announced caller' node') := by
  have hcall := call_alike hagent hhost hplaybooks h hnode hkind hwalk
  rw [Engine.invoke, Engine.invoke]
  cases c.onFailure with
  | none => exact hcall
  | some target =>
    refine .bind hcall.attempt ?_
    rintro _ _ _ _ _ _ (cause | hdone) hw
    · exact (Coupled.bind (.ofExcept (h.frame.write errorKey _)) fun _ _ hf => .pure ⟨rfl, hf⟩) _ _ hw
    · exact Coupled.pure hdone _ _ hw

/-- That a node is done is noted alike. -/
theorem ticked_alike (hagent : caller'.agent = caller.agent) (h : p.Alike L k p') (hnode : L.nodes node node')
    {w w' : World σ} (hw : World.Alike L w w') :
    World.Alike L
      (w.ticked caller.agent.id p.playbook node p.made (e.level caller p.calls).depth)
      (w'.ticked caller'.agent.id p'.playbook node' p'.made ((e.over r).level caller' p'.calls).depth) := by
  obtain ⟨kind, rfl, htype, _⟩ := L.nodes_shape hnode
  obtain ⟨host, interactions, hw, rfl⟩ := hw
  refine ⟨host, interactions, hw, ?_⟩
  simp only [World.ticked, Engine.level_depth, hagent, h.calls, h.made, h.playbook.name, htype]

/-- Standings behind alike nodes are alike. -/
theorem onward_alike (hagent : caller'.agent = caller.agent) (h : p.Alike L k p') (hnode : L.nodes node node')
    (hf : f.Alike L k f') {w w' : World σ} (hw : World.Alike L w w') (goal : String) :
    Alike L k (p.onward e caller node f goal w) (p'.onward (e.over r) caller' node' f' goal w') := by
  have hticked := ticked_alike (e := e) (r := r) hagent h hnode hw
  obtain ⟨d', g, v, hd, hg, hv, rfl⟩ := h
  exact ⟨d', f', _, hd, hf, hticked, rfl⟩

/-- The walk goes on behind the node in both runs, or in none. -/
theorem onward?_alike (hagent : caller'.agent = caller.agent) (h : p.Alike L k p') (hnode : L.nodes node node')
    (hdo : Dispatch.DoAlike L e r caller caller' ⟨k, p, node⟩ ⟨k, p', node'⟩) :
    Option.Rel (Alike L k) (p.onward? e caller node) (p'.onward? (e.over r) caller' node') := by
  obtain ⟨hworld, hresult⟩ := hdo
  rw [onward?, onward?]
  simp only [Dispatch.outcome] at hworld hresult
  generalize p.outcome e caller node = x, p'.outcome (e.over r) caller' node' = y at hworld hresult
  rcases x with ⟨result, w⟩
  rcases y with ⟨result', w'⟩
  cases hresult with
  | error cause => exact .none
  | @ok a b hab =>
    simp only [L.goal?_eq hnode hab]
    cases node.goal? a with
    | none => exact .none
    | some goal => exact .some (onward_alike hagent h hnode hab.2 hworld goal)

/-- A walk that does not go on behind the node ends there in both runs. -/
theorem endAlike_of_onward?_none (hagent : caller'.agent = caller.agent) (h : p.Alike L k p')
    (hnode : L.nodes node node') (hd : p.Dispatches e node) (hd' : p'.Dispatches (e.over r) node')
    (hdo : Dispatch.DoAlike L e r caller caller' ⟨k, p, node⟩ ⟨k, p', node'⟩)
    (hlast : p.onward? e caller node = none) : EndAlike L e r caller caller' k p p' := by
  obtain ⟨hworld, hresult⟩ := hdo
  rw [EndAlike, rest_of_dispatches hd, rest_of_dispatches hd']
  rw [onward?] at hlast
  simp only [Dispatch.outcome] at hworld hresult
  generalize p.outcome e caller node = x, p'.outcome (e.over r) caller' node' = y at hworld hresult hlast
  rcases x with ⟨result, w⟩
  rcases y with ⟨result', w'⟩
  cases hresult with
  | error cause => exact ⟨hworld, .error cause⟩
  | @ok a b hab =>
    -- the first walk ends here, and the other one has the same goal
    have hgoal : node.goal? a = none := Option.map_eq_none_iff.1 hlast
    simp only [L.goal?_eq hnode hab, hgoal, hab.1, h.made]
    have hticked := ticked_alike (e := e) (r := r) hagent h hnode hworld
    rw [h.made] at hticked
    exact ⟨hticked, .ok ⟨b.2, hab.2, rfl⟩⟩

/-- A walk that dispatches nothing more ends in both runs. -/
theorem endAlike_of_not_dispatches (hhost : L.Blind e.host) (h : p.Alike L k p') (hstop : p.dispatching? e = none)
    (hstop' : p'.dispatching? (e.over r) = none) : EndAlike L e r caller caller' k p p' := by
  rw [EndAlike, rest_eq_of_not_dispatches (dispatching?_eq_none.1 hstop),
    rest_eq_of_not_dispatches (dispatching?_eq_none.1 hstop')]
  simp only [hhost.stops_eq h.world, h.made, h.playbook.name, h.place]
  refine ⟨hhost.polled h.world, ?_⟩
  split
  · exact .ok ⟨p'.frame, h.frame, rfl⟩
  · split <;> exact .error _

/-- Two walks that start alike stay so, and dispatch corresponding nodes in the same order at every call depth, if
the nodes that call no playbook do alike by themselves wherever they are dispatched side by side. -/
theorem rest_alike (hagent : caller'.agent = caller.agent) (hhost : L.Blind e.host)
    (hplaybooks : Registry.Alike L e.playbooks r) (p p' : Standing σ) (depth : Nat) (h : p.Alike L depth p')
    (hleaf : ∀ d ∈ p.dispatched e caller depth, ∀ d' ∈ p'.dispatched (e.over r) caller' depth,
      d.Alike L d' → ¬ d.Calls → d.DoAlike L e r caller caller' d') :
    EndAlike L e r caller caller' depth p p' ∧
      List.Forall₂ (Dispatch.Alike L) (p.dispatched e caller depth)
        (p'.dispatched (e.over r) caller' depth) := by
  -- both the walk that the node calls and the walk behind it are shorter, and their nodes are among those of the
  -- whole walk
  induction p using Standing.induction e caller generalizing p' depth with
  | step p ih =>
    have hdispatching := dispatching?_alike (r := r) hhost h
    generalize hstop : p.dispatching? e = o, hstop' : p'.dispatching? (e.over r) = o' at hdispatching
    cases hdispatching with
    | none =>
      refine ⟨endAlike_of_not_dispatches hhost h hstop hstop', ?_⟩
      rw [dispatched_of_not_dispatches (dispatching?_eq_none.1 hstop),
        dispatched_of_not_dispatches (dispatching?_eq_none.1 hstop')]
      exact .nil
    | @some node node' hnode =>
      have hd := dispatching?_eq_some.1 hstop
      have hd' := dispatching?_eq_some.1 hstop'
      have hown : Dispatch.Alike L ⟨depth, p, node⟩ ⟨depth, p', node'⟩ := ⟨p', node', h, hnode, rfl⟩
      rw [dispatched_of_dispatches hd, dispatched_of_dispatches hd'] at hleaf ⊢
      have hcalled := called?_alike (p := p) hagent hplaybooks h hnode
      have hwalk : ∀ q q', p.called? e caller node = some q → p'.called? (e.over r) caller' node' = some q' →
          q.Alike L (depth + 1) q' → _ := fun q q' hq hq' hqq' =>
        ih q (.of_called hd hq) q' (depth + 1) hqq' fun d hmem d' hmem' =>
          hleaf d (List.mem_cons_of_mem _ (List.mem_append_left _ (mem_elim.2 ⟨q, hq, hmem⟩)))
            d' (List.mem_cons_of_mem _ (List.mem_append_left _ (mem_elim.2 ⟨q', hq', hmem'⟩)))
      have hdo : Dispatch.DoAlike L e r caller caller' ⟨depth, p, node⟩ ⟨depth, p', node'⟩ := by
        by_cases hkind : ∃ c, node.kind = .invoke c
        · rcases hkind with ⟨c, hkind⟩
          have hinvoke := invoke_alike (L := L) hagent hhost hplaybooks h hnode hkind fun q q' hq hq' => by
            rw [hq, hq'] at hcalled
            cases hcalled with
            | some hqq' => exact (hwalk q q' hq hq' hqq').1
          simp only [Dispatch.DoAlike, Dispatch.outcome, outcome, Engine.dispatch, hkind,
            (L.invoke_iff hnode c).2 hkind]
          exact hinvoke
        · exact hleaf _ List.mem_cons_self _ List.mem_cons_self hown hkind
      have honward := onward?_alike hagent h hnode hdo
      generalize hgo : p.onward? e caller node = o, hgo' : p'.onward? (e.over r) caller' node' = o' at honward
      have hcallees : List.Forall₂ (Dispatch.Alike L)
          ((p.called? e caller node).elim [] (dispatched e caller (depth + 1)))
          ((p'.called? (e.over r) caller' node').elim [] (dispatched (e.over r) caller' (depth + 1))) := by
        generalize hq : p.called? e caller node = c, hq' : p'.called? (e.over r) caller' node' = c' at hcalled
        cases hcalled with
        | none => exact .nil
        | some hqq' => exact (hwalk _ _ hq hq' hqq').2
      cases honward with
      | none =>
        refine ⟨endAlike_of_onward?_none hagent h hnode hd hd' hdo hgo, .cons hown ?_⟩
        exact List.rel_append hcallees .nil
      | @some q q' hqq' =>
        obtain ⟨hend, hlist⟩ := ih q (.of_onward hd hgo) q' depth hqq' fun d hmem d' hmem' =>
          hleaf d (List.mem_cons_of_mem _ (List.mem_append_right _ (mem_elim.2 ⟨q, hgo, hmem⟩)))
            d' (List.mem_cons_of_mem _ (List.mem_append_right _ (mem_elim.2 ⟨q', hgo', hmem'⟩)))
        rw [EndAlike, rest_of_onward? hd hgo, rest_of_onward? hd' hgo']
        exact ⟨hend, .cons hown (List.rel_append hcallees hlist)⟩

end Standing

theorem Dispatch.Alike.depth {d d' : Dispatch σ} (h : d.Alike L d') : d'.depth = d.depth := by
  obtain ⟨_, _, _, _, rfl⟩ := h
  rfl

theorem Dispatch.Alike.nodes {d d' : Dispatch σ} (h : d.Alike L d') : L.nodes d.node d'.node := by
  obtain ⟨_, _, _, hnode, rfl⟩ := h
  exact hnode

/-- Both nodes call a playbook, or none of them. -/
theorem Dispatch.Alike.calls_iff {d d' : Dispatch σ} (h : d.Alike L d') : d'.Calls ↔ d.Calls :=
  exists_congr (L.invoke_iff h.nodes)

/-- The same node, dispatched at the same place, does alike unless it calls a playbook. -/
theorem Dispatch.Alike.doAlike {d d' : Dispatch σ} (h : d.Alike L d') (hnode : d'.node = d.node)
    (hagent : caller'.agent = caller.agent) (hhost : L.Blind e.host)
    (hsees : ∀ g, d.node.kind = .generate g → L.Sees e caller caller' g.profile)
    (horchestration : (e.level caller d.standing.calls).depth = 0 →
      caller'.orchestration = caller.orchestration ∨ ∀ l l', L.outputs d.depth l l')
    (hcalls : ¬ d.Calls) : d.DoAlike L e r caller caller' d' := by
  obtain ⟨p', node, hp, hcorrespond, rfl⟩ := h
  cases hnode
  have hdepth : ((e.over r).level caller' p'.calls).depth = (e.level caller d.standing.calls).depth := by
    rw [Engine.level_depth, Engine.level_depth, hp.calls]
  exact Engine.dispatch_alike hagent hhost hdepth (fun c hc => hcalls ⟨c, hc⟩) hsees horchestration hp.frame _ _
    (Standing.announced_alike hagent hp hcorrespond)

/-! ## Runs -/

/-- The outcomes differ at most in their outputs, and these correspond. -/
def Outcome.Alike (L : Likeness σ) (o o' : Outcome) : Prop :=
  ∃ outputs frame, L.outputs 0 o.outputs outputs ∧ o.frame.Alike L 0 frame ∧ o' = { o with outputs, frame }

/-- Where only the same outputs correspond, the outcomes are the same. -/
theorem Outcome.Alike.eq {o o' : Outcome} (h : o.Alike L o') (hsame : ∀ l l', L.outputs 0 l l' → l' = l) :
    o' = o := by
  obtain ⟨outputs, _, ho, ⟨outputs', ho', rfl⟩, rfl⟩ := h
  rw [hsame _ _ ho, hsame _ _ ho']

namespace Engine

variable {name : String} {args : Dict Json} {w w' : World σ}

/-- The same arguments are bound to playbooks that are alike. -/
theorem bindArguments_alike (hplaybooks : Registry.Alike L e.playbooks r) (name : String) (args : Dict Json) :
    Matches (fun a b => a.1.Alike L b.1 ∧ b.2 = a.2) (e.bindArguments name args)
      ((e.over r).bindArguments name args) := by
  rw [bindArguments, bindArguments]
  refine (require_alike hplaybooks name).bind fun d d' hd => ?_
  simp only [Definition.checkArguments_congr hd.params, hd.name]
  cases d.checkArguments args.keys with
  | error reason => exact .error _
  | ok accepted =>
    refine (Matches.refl (Region.ofArgs args)).bind ?_
    rintro region _ rfl
    exact .ok ⟨hd, rfl⟩

/-- The walks of two runs that start alike end alike, and dispatch corresponding nodes in the same order. -/
theorem start_alike (hagent : caller'.agent = caller.agent) (hhost : L.Blind e.host)
    (hplaybooks : Registry.Alike L e.playbooks r) (hw : World.Alike L w w')
    (hleaf : ∀ d ∈ e.dispatched caller name args w, ∀ d' ∈ (e.over r).dispatched caller' name args w',
      d.Alike L d' → ¬ d.Calls → d.DoAlike L e r caller caller' d') :
    CoupledAt (World.Alike L) (WalkEnd.Alike L 0) (e.start caller name args w.hierarchy.active)
        ((e.over r).start caller' name args w'.hierarchy.active) w w' ∧
      List.Forall₂ (Dispatch.Alike L) (e.dispatched caller name args w)
        ((e.over r).dispatched caller' name args w') := by
  have hbound := bindArguments_alike hplaybooks name args
  cases hb : e.bindArguments name args with
  | error cause =>
    rw [hb] at hbound
    rw [dispatched_of_error hb, dispatched_of_error hbound.eq_error, CoupledAt, start_of_error hb,
      start_of_error hbound.eq_error]
    exact ⟨⟨hw, .error cause⟩, .nil⟩
  | ok bound =>
    rw [hb] at hbound
    obtain ⟨⟨d', region'⟩, hb', hd, hregion⟩ := hbound.eq_ok
    rcases bound with ⟨d, region⟩
    cases hregion
    rw [dispatched_of_ok hb, dispatched_of_ok hb'] at hleaf ⊢
    rw [CoupledAt, start_eq_rest hb, start_eq_rest hb']
    obtain ⟨host, interactions, hw, rfl⟩ := hw
    refine Standing.rest_alike hagent hhost hplaybooks _ _ 0 (Standing.start_alike hd _ _ _ ?_) hleaf
    refine ⟨host, interactions, hw, ?_⟩
    simp only [World.begun, hagent, hd.name]

/-- What a run does when its walk has ended. -/
def finish (e : Engine σ) (agent name : String) (mark : ThreadId) : Except Error WalkEnd → Exec σ Outcome
  | .ok done =>
    if done.cancelled then do
      Exec.aborting agent (fun h => h.abortRun mark e.now)
      let active ← Exec.look fun w => w.hierarchy.active
      Exec.publish agent (.runCancelled name)
      outcome .cancelled done { done.frame with thread := active }
    else do
      Exec.publish agent (.runCompleted name done.steps done.frame.outputs.length)
      outcome .completed done done.frame
  | .error cause => do
    let _ ← Exec.attempt (Exec.aborting agent (fun h => h.abortRun mark e.now))
    Exec.publish agent (.runFailed name cause.message)
    throw cause

/-- A run is a start whose failure is caught, and what finishes it. -/
theorem run_eq_finish (e : Engine σ) (caller : Caller) (name : String) (args : Dict Json) :
    e.run caller name args = (Exec.look fun w => w.hierarchy.active) >>= fun mark =>
      Exec.attempt (e.start caller name args mark) >>= e.finish caller.agent.id name mark :=
  rfl

/-- Walks that have ended alike are finished alike, if as many outputs correspond. -/
theorem finish_alike (hcount : ∀ l l', L.outputs 0 l l' → l'.length = l.length) (agent name : String)
    (mark : ThreadId) {result result' : Except Error WalkEnd} (h : Matches (WalkEnd.Alike L 0) result result') :
    Coupled (World.Alike L) (Outcome.Alike L) (e.finish agent name mark result)
      ((e.over r).finish agent name mark result') := by
  cases h with
  | error cause => exact .bind (.attempt (.aborting _ _)) fun _ _ _ => .next (.publish _ _) fun _ => .throw cause
  | @ok done _ hdone =>
    obtain ⟨_, ⟨outputs, ho, rfl⟩, rfl⟩ := hdone
    -- an outcome shows the outputs of the frame, which may differ, and nothing else of it
    have houtcome : ∀ status (f : Frame), f.outputs = done.frame.outputs →
        Coupled (World.Alike L) (Outcome.Alike L) (outcome (σ := σ) status done f)
          (outcome status { done with frame := { done.frame with outputs } } { f with outputs }) := by
      rintro status f hf w _ ⟨host, interactions, hw, rfl⟩
      refine ⟨⟨host, interactions, hw, rfl⟩, .ok ⟨outputs, { f with outputs }, ho, ?_, rfl⟩⟩
      exact ⟨outputs, hf ▸ ho, rfl⟩
    simp only [finish]
    split
    · refine .next (.aborting _ _) fun _ => .next (.offHost fun _ _ _ => rfl) fun active => ?_
      exact .next (.publish _ _) fun _ => houtcome _ _ rfl
    · rw [hcount _ _ ho]
      exact .next (.publish _ _) fun _ => houtcome _ _ rfl

/-- Two runs that start alike do alike, if as many outputs correspond. -/
theorem run_alike (hagent : caller'.agent = caller.agent) (hhost : L.Blind e.host)
    (hplaybooks : Registry.Alike L e.playbooks r)
    (hcount : ∀ l l', L.outputs 0 l l' → l'.length = l.length) (hw : World.Alike L w w')
    (hleaf : ∀ d ∈ e.dispatched caller name args w, ∀ d' ∈ (e.over r).dispatched caller' name args w',
      d.Alike L d' → ¬ d.Calls → d.DoAlike L e r caller caller' d') :
    CoupledAt (World.Alike L) (Outcome.Alike L) (e.run caller name args)
      ((e.over r).run caller' name args) w w' := by
  have hstart := (start_alike hagent hhost hplaybooks hw hleaf).1
  have hactive : w'.hierarchy.active = w.hierarchy.active := by
    obtain ⟨_, _, _, rfl⟩ := hw
    rfl
  rw [hactive] at hstart
  rw [run_eq_finish, run_eq_finish, hagent]
  refine .bind (R := fun a b => a = w.hierarchy.active ∧ b = w.hierarchy.active) ⟨hw, .ok ⟨rfl, hactive⟩⟩ ?_
  rintro _ _ w₁ w₁' ⟨⟩ ⟨⟩ ⟨_, hb⟩ _
  rw [hb]
  exact .bind hstart.attempt fun result result' _ _ _ _ h hw => finish_alike hcount _ _ _ h _ _ hw

end Engine

end Playbook
