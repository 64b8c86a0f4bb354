import Mathlib.Algebra.GroupWithZero.Nat
import Playbook.Proofs.Run.Cleanup
import Playbook.Proofs.Run.Deeds

/-! # Usage and trace

A walk works on a ledger of its own and hands it to its caller however it ends. So nothing is lost and
nothing is counted twice: the usage of a run is that of all answers of the model, and its trace is the
sequence of all nodes that were completed, in whatever walks.

Main statements: `Deed.balanced` and `Deeds.balanced` say so of what is done, `Standing.rest_ticks` says
which entries of the trace are those of a walk itself, and `Engine.accounts_of_run` says what both mean for
every run that returns an outcome.
-/

namespace Playbook

open Relation (ReflTransGen)

variable {σ : Type} {e : Engine σ} {caller : Caller} {agent : String} {S : Scope} {w w' : World σ}

/-! ## What was used and what was done -/

/-- Several usages together, component by component. -/
def Usage.sum (us : List Usage) : Usage := ⟨(us.map (·.input)).sum, (us.map (·.output)).sum⟩

theorem Usage.sum_concat (us : List Usage) (u : Usage) : sum (us ++ [u]) = (sum us).add u := by
  simp [sum, add]

/-- The node of which this tells that it is done. -/
def Happening.completed? : Happening → Option String
  | .nodeCompleted node => some node
  | _ => none

/-- The usage of each answer of the model. -/
def World.usages (w : World σ) : List Usage := w.interactions.filterMap Interaction.usage?

/-- The nodes that were completed, in order. -/
def World.completedNodes (w : World σ) : List String := w.events.filterMap fun ev => ev.what.completed?

/-- The usage is that of all answers of the model, and the trace lists the nodes that were completed. -/
structure Balanced (w : World σ) : Prop where
  usage : w.usage = Usage.sum w.usages
  trace : w.trace.map (·.node) = w.completedNodes

/-- What is published without a node being completed. -/
theorem World.completedNodes_told {whats : List Happening} (h : ∀ what ∈ whats, what.completed? = none)
    (w : World σ) (agent : String) : (w.told agent whats).completedNodes = w.completedNodes := by
  have hnil : (whats.map fun what => (⟨agent, what⟩ : Event)).filterMap (fun ev => ev.what.completed?) =
      [] := by
    rw [List.filterMap_eq_nil_iff]
    intro ev hev
    rcases List.mem_map.1 hev with ⟨what, hmem, rfl⟩
    exact h what hmem
  rw [completedNodes, told, List.filterMap_append, hnil, List.append_nil]
  rfl

theorem Balanced.told (hb : Balanced w) {whats : List Happening}
    (h : ∀ what ∈ whats, what.completed? = none) : Balanced (w.told agent whats) where
  usage := hb.usage
  trace := by
    rw [World.completedNodes_told h]
    exact hb.trace

/-- A call of the host without an answer of the model changes neither side. -/
theorem Balanced.consulted (hb : Balanced w) {i : Interaction} (hi : i.usage? = none) (host : σ)
    (cancels : Bool) : Balanced (w.consulted host cancels i) where
  usage := by
    have husages : (w.consulted host cancels i).usages = w.usages := by
      simp [World.usages, World.consulted, hi]
    rw [husages]
    exact hb.usage
  trace := hb.trace

/-- Every deed keeps the balance. -/
theorem Deed.balanced (hb : Balanced w) (hd : Deed e agent S w w') : Balanced w' := by
  -- only an answer adds to the usage, and only a dispatch that has ended to the trace
  cases hd with
  | consulted host cancels i hu hd => exact hb.consulted hu host cancels
  | polled => exact ⟨hb.usage, hb.trace⟩
  | answered host cancels request g =>
    constructor
    · -- the one answer is counted once
      have husages : (w.consulted host cancels (.generated request (.ok g))).usages =
          w.usages ++ [g.usage] := by
        simp [World.usages, World.consulted, Interaction.usage?]
      show w.usage.add g.usage = Usage.sum (w.consulted host cancels (.generated request (.ok g))).usages
      rw [husages, Usage.sum_concat, hb.usage]
    · have hsame : ((w.consulted host cancels (.generated request (.ok g))).told agent
          [.usageUpdate g.usage]).completedNodes = w.completedNodes :=
        World.completedNodes_told (by simp [Happening.completed?]) _ agent
      exact hb.trace.trans hsame.symm
  | noted what hn =>
    refine hb.told ?_
    intro x hmem
    rw [List.mem_singleton.1 hmem]
    cases what <;> first | rfl | cases hn
  | dispatched t hS =>
    constructor
    · exact hb.usage
    · show (w.trace ++ [t]).map (·.node) = (w.told agent [.nodeCompleted t.node]).completedNodes
      have hevents : (w.told agent [.nodeCompleted t.node]).completedNodes =
          w.completedNodes ++ [t.node] := by
        simp [World.completedNodes, World.told, Happening.completed?]
      rw [hevents, List.map_append, hb.trace]
      rfl
  | recorded host cancels thread content h hS hr =>
    have hsaid : Balanced (w.consulted host cancels
        (.appended (.said agent content thread e.now) (.ok ()))) := hb.consulted rfl host cancels
    exact ⟨hsaid.usage, hsaid.trace⟩
  | delivered host cancels node content hS =>
    have hheard : Balanced ((w.consulted host cancels (.delivered agent content (.ok ()))).told agent
        [.emitted content]) :=
      (hb.consulted rfl host cancels).told (by simp [Happening.completed?])
    exact ⟨hheard.usage, hheard.trace⟩
  | entered ratio label h t he ht =>
    have htold : Balanced (w.told agent [.threadEntered (e.supply w.drawn) t.depth t.budget]) :=
      hb.told (by simp [Happening.completed?])
    exact ⟨htold.usage, htold.trace⟩
  | left id chronicle h hl =>
    have htold : Balanced (w.told agent [.threadCompleted id chronicle.isSome]) :=
      hb.told (by simp [Happening.completed?])
    exact ⟨htold.usage, htold.trace⟩
  | aborted id h ids ha =>
    have htold : Balanced (w.told agent (ids.map .threadAborted)) := by
      refine hb.told ?_
      intro what hmem
      rcases List.mem_map.1 hmem with ⟨x, _, rfl⟩
      rfl
    exact ⟨htold.usage, htold.trace⟩

/-- So does everything that a run does. -/
theorem Deeds.balanced (hb : Balanced w) (hd : Deeds e agent S w w') : Balanced w' := by
  induction hd with
  | refl => exact hb
  | tail _ hlast ih => exact hlast.balanced ih

/-! ## Whose entries they are -/

/-- What is dispatched next is not at a higher level. -/
theorem Next.calls_le {p q : Standing σ} (hn : Next e caller p q) : q.calls ≤ p.calls := by
  cases hn with
  | onward => exact Nat.le_refl _
  | inline hd hkind hmode hcalls hp =>
    rw [hcalls]
    exact Nat.le_succ _
  | isolated hd hkind hmode hcalls hp ho =>
    rw [hcalls]
    exact Nat.le_succ _

theorem Visits.calls_le {p q : Standing σ} (hv : Visits e caller p q) : q.calls ≤ p.calls := by
  induction hv with
  | refl => exact Nat.le_refl _
  | tail _ hlast ih => exact hlast.calls_le.trans ih

/-- New entries of the trace, seen from a walk that has made some steps. Those at its own depth are its own
and have the next steps, one after the other; all others are deeper. -/
structure Ticks (playbook : String) (depth made n : Nat) (added : List TraceEntry) : Prop where
  steps : (added.filter fun t => t.callDepth == depth).map (·.step) = List.range' (made + 1) n
  own : ∀ t ∈ added, t.callDepth = depth → t.playbook = playbook
  depth_le : ∀ t ∈ added, depth ≤ t.callDepth

namespace Ticks

variable {playbook : String} {depth made n : Nat} {called added : List TraceEntry}

/-- Entries of callees only. -/
theorem of_called (h : ∀ t ∈ called, depth < t.callDepth) : Ticks playbook depth made 0 called where
  steps := by
    have hnone : (called.filter fun t => t.callDepth == depth) = [] := by
      rw [List.filter_eq_nil_iff]
      intro t hmem heq
      exact Nat.ne_of_gt (h t hmem) (beq_iff_eq.1 heq)
    rw [hnone]
    rfl
  own := fun t hmem heq => absurd heq (Nat.ne_of_gt (h t hmem))
  depth_le := fun t hmem => Nat.le_of_lt (h t hmem)

/-- One step, with the entries of what it calls before its own, and then the steps behind it. -/
theorem cons (h : ∀ t ∈ called, depth < t.callDepth) {t : TraceEntry} (hplaybook : t.playbook = playbook)
    (hstep : t.step = made + 1) (hdepth : t.callDepth = depth)
    (hrest : Ticks playbook depth (made + 1) n added) :
    Ticks playbook depth made (n + 1) (called ++ t :: added) where
  steps := by
    have hcalled := (of_called h : Ticks playbook depth made 0 called).steps
    rw [List.filter_append, List.map_append, hcalled, List.filter_cons, if_pos (beq_iff_eq.2 hdepth),
      List.map_cons, hrest.steps, hstep, List.range'_succ]
    rfl
  own := by
    intro u hmem heq
    rcases List.mem_append.1 hmem with hmem | hmem
    · exact absurd heq (Nat.ne_of_gt (h u hmem))
    · rcases List.mem_cons.1 hmem with rfl | hmem
      · exact hplaybook
      · exact hrest.own u hmem heq
  depth_le := by
    intro u hmem
    rcases List.mem_append.1 hmem with hmem | hmem
    · exact Nat.le_of_lt (h u hmem)
    · rcases List.mem_cons.1 hmem with rfl | hmem
      · exact Nat.le_of_eq hdepth.symm
      · exact hrest.depth_le u hmem

end Ticks

namespace Standing

variable {p : Standing σ} {node : Node}

/-- How deep the walk is nested in calls. -/
def depth (e : Engine σ) (p : Standing σ) : Nat := e.config.engine.maxCallDepth - p.calls

theorem level_depth (p : Standing σ) : (e.level caller p.calls).depth = p.depth e :=
  Engine.level_depth p.calls

/-- While a node is dispatched, only what it calls is noted, and that is deeper. -/
theorem outcome_called (hd : p.Dispatches e node) (hle : p.calls ≤ e.config.engine.maxCallDepth) :
    ∃ called, (p.outcome e caller node).2.trace = p.world.trace ++ called ∧
      ∀ t ∈ called, p.depth e < t.callDepth := by
  have hdeeds : Deeds e caller.agent.id ⟨fun _ _ => True, fun t => p.depth e < t.callDepth⟩
      (p.announced caller node) (p.outcome e caller node).2 := by
    refine outcome_does hd trivial ?_
    intro q _ hless
    refine rest_does q ?_
    intro r n hvisits _
    refine ⟨trivial, ?_⟩
    -- a walk that is called may nest fewer calls than its caller
    have hcalls := hvisits.calls_le
    show p.depth e < (e.level caller r.calls).depth
    rw [level_depth, depth, depth]
    omega
  exact hdeeds.trace_grows

/-- A walk that dispatches no node has made its last step. -/
theorem steps_of_not_dispatches (h : ¬ ∃ node, p.Dispatches e node) {done : WalkEnd}
    (hr : (p.rest e caller).1 = .ok done) : done.steps = p.made := by
  rw [rest_eq_of_not_dispatches h] at hr
  simp only at hr
  split at hr
  · cases hr
    rfl
  · split at hr <;> cases hr

/-- What a walk notes from here on, itself and through its callees. -/
theorem rest_ticks (p : Standing σ) (hle : p.calls ≤ e.config.engine.maxCallDepth) :
    ∃ added n, (p.rest e caller).2.trace = p.world.trace ++ added ∧
      Ticks p.playbook.name (p.depth e) p.made n added ∧
      ∀ done, (p.rest e caller).1 = .ok done → done.steps = p.made + n := by
  induction p using Standing.induction e caller with
  | step p ih =>
    by_cases hdisp : ∃ node, p.Dispatches e node
    · rcases hdisp with ⟨node, hd⟩
      obtain ⟨called, htrace, hdeeper⟩ : ∃ called,
          (p.outcome e caller node).2.trace = p.world.trace ++ called ∧
            ∀ t ∈ called, p.depth e < t.callDepth := outcome_called hd hle
      rw [rest_of_dispatches hd]
      rcases hx : p.outcome e caller node with ⟨r, w'⟩
      rw [hx] at htrace
      cases r with
      | error cause =>
        -- the node has failed, so the walk has made no step of its own
        exact ⟨called, 0, htrace, .of_called hdeeper, fun done hdone => nomatch hdone⟩
      | ok done =>
        have hticked : (w'.ticked caller.agent.id p.playbook node p.made
            (e.level caller p.calls).depth).trace =
            p.world.trace ++ (called ++ [entry e caller p node]) := by
          show w'.trace ++ [entry e caller p node] = _
          rw [← List.append_assoc, ← htrace]
        have hdepth : (entry e caller p node).callDepth = p.depth e := level_depth p
        cases hgoal : node.goal? done with
        | none =>
          simp only [hgoal]
          refine ⟨called ++ [entry e caller p node], 1, hticked, ?_, ?_⟩
          · exact .cons hdeeper rfl rfl hdepth (.of_called fun _ hmem => absurd hmem List.not_mem_nil)
          · intro done' hdone
            cases hdone
            rfl
        | some goal =>
          simp only [hgoal]
          rcases ih _ (.onward hd hx hgoal) hle with ⟨added, n, hadded, hticks, hsteps⟩
          refine ⟨called ++ entry e caller p node :: added, n + 1, ?_, ?_, ?_⟩
          · rw [hadded]
            show (w'.ticked caller.agent.id p.playbook node p.made
              (e.level caller p.calls).depth).trace ++ added = _
            rw [hticked]
            simp
          · exact .cons hdeeper rfl rfl hdepth hticks
          · intro done' hdone
            have hmade : done'.steps = p.made + 1 + n := hsteps done' hdone
            omega
    · refine ⟨[], 0, ?_, .of_called fun _ hmem => absurd hmem List.not_mem_nil, ?_⟩
      · rw [rest_of_not_dispatches hdisp]
        exact (List.append_nil _).symm
      · intro done hdone
        exact steps_of_not_dispatches hdisp hdone

end Standing

/-! ## Runs -/

namespace Engine

variable {name : String} {args : Dict Json}

theorem calls_le_of_visited {p : Standing σ} (hv : e.Visited caller name args w p) :
    p.calls ≤ e.config.engine.maxCallDepth := by
  rcases hv with ⟨d, region, _, hvisits⟩
  exact hvisits.calls_le

/-- In a run that returns an outcome nothing is lost and nothing is counted twice. The usage is the sum of
the usages of all answers of the model; the trace lists the nodes that were completed; while a walk
dispatches a node only entries of deeper walks are noted, and its own have its depth and its steps,
without gap or repetition; and those of the walk at top level are the steps of the run. -/
theorem accounts_of_run (e : Engine σ) (caller : Caller) (name : String) (args : Dict Json) (host : σ)
    (hierarchy : Hierarchy) (drawn : Nat) (cancelled : Bool) {o : Outcome} {w' : World σ}
    (hrun : e.run caller name args (.start host hierarchy drawn cancelled) = (.ok o, w')) :
    o.usage = Usage.sum (w'.interactions.filterMap Interaction.usage?) ∧
      o.trace.map (·.node) = w'.events.filterMap (fun ev => ev.what.completed?) ∧
      (∀ p, e.Visited caller name args (.start host hierarchy drawn cancelled) p →
        (∀ node, p.Dispatches e node → ∃ called,
          (p.outcome e caller node).2.trace = p.world.trace ++ called ∧
            ∀ t ∈ called, p.depth e < t.callDepth) ∧
        ∃ added n, (p.rest e caller).2.trace = p.world.trace ++ added ∧
          Ticks p.playbook.name (p.depth e) p.made n added ∧
          ∀ done, (p.rest e caller).1 = .ok done → done.steps = p.made + n) ∧
      ∃ d region, e.bindArguments name args = .ok (d, region) ∧ Ticks d.name 0 0 o.steps o.trace := by
  rcases run_does hrun (fun cause hcause => nomatch hcause) with ⟨w₂, hdeeds, rfl, hout⟩
  rcases hout o rfl with ⟨husage, htrace, done, w₁, hstart, hsteps, hwalk⟩
  cases hb : e.bindArguments name args with
  | error cause =>
    rw [start_of_error hb] at hstart
    cases hstart
  | ok bound =>
    rcases bound with ⟨d, region⟩
    rw [opened_of_ok hb] at hdeeds
    rw [start_eq_rest hb] at hstart
    have hbegin : Balanced ((World.start host hierarchy drawn cancelled).begun caller.agent.id d) :=
      ⟨rfl, rfl⟩
    have hend : Balanced (w₂.told caller.agent.id [.ending name (.ok o)]) := by
      refine (hdeeds.balanced hbegin).told ?_
      intro what hmem
      rw [List.mem_singleton.1 hmem]
      simp only [Happening.ending]
      cases o.status <;> rfl
    refine ⟨husage.trans hend.usage, ?_, ?_, d, region, rfl, ?_⟩
    · rw [htrace]
      exact hend.trace
    · intro p hv
      have hle := calls_le_of_visited hv
      constructor
      · intro node hd
        exact Standing.outcome_called hd hle
      · exact p.rest_ticks hle
    · let p := Standing.start e.config.engine.maxCallDepth d region hierarchy.active
        ((World.start host hierarchy drawn cancelled).begun caller.agent.id d)
      rcases (p.rest_ticks (Nat.le_refl e.config.engine.maxCallDepth) :
        ∃ added n, (p.rest e caller).2.trace = p.world.trace ++ added ∧ _) with
        ⟨added, n, hadded, hticks, hmade⟩
      have hrest : p.rest e caller = (.ok done, w₁) := hstart
      rw [hrest] at hadded hmade
      have hdepth : p.depth e = 0 := Nat.sub_self _
      have hn : o.steps = n := by
        have hdone : done.steps = 0 + n := hmade done rfl
        omega
      have htop : o.trace = added := hwalk.trans hadded
      rw [hdepth] at hticks
      rw [htop, hn]
      exact hticks

end Engine

/-! ## Tours that succeed -/

namespace Tour

/-- A host whose model answers and whose user listens, but that has no tools. -/
def host : Host Unit where
  generate := fun _ _ => ⟨.ok ⟨.text "fine", ⟨3, 5⟩⟩, false, ()⟩
  useTool := fun _ _ name _ => ⟨.error (.toolNotFound name), false, ()⟩
  append := fun _ _ => ⟨.ok (), false, ()⟩
  recollect := fun _ _ _ => ⟨.ok [], false, ()⟩
  deliver := fun _ _ _ => ⟨.ok (), false, ()⟩
  interrupts := fun _ _ => false
  keep := fun _ _ => (.ok (), ())

/-- Enters a session, says something there, and leaves it open. -/
def inn : Definition where
  graph := ⟨"inn", none, "enter", [],
    [⟨"enter", .enterSession ⟨none, none⟩, some "say", []⟩, ⟨"say", .emit "hello", none, []⟩]⟩
  sound := ⟨Schema.truthValues, by decide⟩

/-- Asks the model and then uses a tool. -/
def slip : Definition where
  graph := ⟨"slip", none, "ask", [],
    [⟨"ask", .generate ⟨.worker, "how is it?", none, "answer"⟩, some "look", []⟩,
      ⟨"look", .invokeTool ⟨"lamp", .empty, "seen"⟩, none, []⟩]⟩
  sound := ⟨Schema.truthValues, by decide⟩

/-- A call of the inn in a session that is summarized. -/
def lodging : Call := ⟨"inn", .empty, .isolated, false, none, none, none, true⟩

def stay : Node := ⟨"stay", .invoke lodging, none, []⟩

def tour : Definition where
  graph := ⟨"tour", none, "stay", [], [stay]⟩
  sound := ⟨Schema.truthValues, by decide⟩

/-- A call of the slip, with a way home. -/
def slippery : Call := ⟨"slip", .empty, .inline, false, none, some "home", none, true⟩

def climb : Node := ⟨"climb", .invoke slippery, none, []⟩

def hike : Definition where
  graph := ⟨"hike", none, "climb", [], [climb, ⟨"home", .pass, none, []⟩]⟩
  sound := ⟨Schema.truthValues, by decide⟩

def engine : Engine Unit where
  playbooks := (Registry.ofDefinitions [inn, slip, tour, hike]).toOption.getD .empty
  config := .default
  host := host
  schemas := Schema.truthValues
  tokens := String.length
  supply := Hierarchy.unary
  now := default

theorem settled : Settled engine Outing.world :=
  .of_reachable Hierarchy.unary_injective ⟨"agent", 100, default, _, rfl⟩ () false

end Tour

/-- The answer that the model gave before the slip is counted, and the nodes of the slip stay noted. -/
theorem Tour.hike_accounts :
    ∃ o w', Tour.engine.run Outing.traveller "hike" .empty Outing.world = (.ok o, w') ∧
      o.usage = Usage.sum (w'.interactions.filterMap Interaction.usage?) ∧
      o.trace.map (·.node) = w'.events.filterMap (fun ev => ev.what.completed?) ∧
      Ticks "hike" 0 0 o.steps o.trace := by
  have hok : (Tour.engine.run Outing.traveller "hike" .empty Outing.world).1.toOption.isSome = true := by
    decide +kernel
  rcases hrun : Tour.engine.run Outing.traveller "hike" .empty Outing.world with ⟨cause | o, w'⟩
  · rw [hrun] at hok
    cases hok
  · rcases Engine.accounts_of_run Tour.engine Outing.traveller "hike" .empty () _ _ _ hrun with
      ⟨husage, htrace, _, d, region, hb, hticks⟩
    have hd : (Tour.hike, Region.empty) = (d, region) := Except.ok.inj hb
    cases hd
    exact ⟨o, w', rfl, husage, htrace, hticks⟩

example : ((Tour.engine.run Outing.traveller "hike" .empty Outing.world).1.toOption.map fun o =>
    (o.usage, o.trace.map (·.node))) = some (⟨3, 5⟩, ["ask", "climb", "home"]) := by decide +kernel

end Playbook
