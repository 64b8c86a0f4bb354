import Playbook.Proofs.Run.Cleanup
import Playbook.Proofs.Run.Visits

/-! # Walks are in step with the hierarchy

Wherever a run dispatches a node, and whenever a walk completes normally, the walk acts in the active
thread, and the sessions that it has opened and not yet left are the innermost threads on the way to it.

Main statements: `Upright.next` says that what is dispatched next stands on its ground again, and
`Engine.inStep_of_run` says what that means for every run.
-/

namespace Playbook

open Hierarchy

variable {σ : Type} {e : Engine σ} {caller : Caller} {h₀ : Hierarchy} {p q : Standing σ}

/-! ## Standings on their ground -/

/-- The ground of a walk: free at top level, and below it the thread in which the walk started. -/
def Standing.ground (e : Engine σ) (p : Standing σ) : Ground :=
  if p.calls = e.config.engine.maxCallDepth then .free p.before else .under p.before p.origin

/-- A run starts on free ground. -/
theorem Standing.ground_start (e : Engine σ) (d : Definition) (region : Region) (thread : ThreadId)
    (w : World σ) :
    (Standing.start e.config.engine.maxCallDepth d region thread w).ground e = .free w.hierarchy :=
  if_pos rfl

/-- A called walk starts on the ground of its thread. -/
theorem Standing.ground_start_of_lt {calls : Nat} (hcalls : calls < e.config.engine.maxCallDepth)
    (d : Definition) (region : Region) (thread : ThreadId) (w : World σ) :
    (Standing.start calls d region thread w).ground e = .under w.hierarchy thread :=
  if_neg (Nat.ne_of_lt hcalls)

/-- A standing that a run which began in this hierarchy can reach. -/
structure Upright (e : Engine σ) (h₀ : Hierarchy) (p : Standing σ) : Prop where
  calls_le : p.calls ≤ e.config.engine.maxCallDepth
  top_before : p.calls = e.config.engine.maxCallDepth → p.before = h₀
  before : IsTree p.before
  origin_mem : p.before.get? p.origin ≠ none
  registered : ∃ name, e.playbooks.get? name = some p.playbook
  node_mem : p.node ∈ p.playbook.graph.ids
  settled : Settled e p.world
  stands : Stands (p.ground e) p.world.hierarchy p.frame

/-- Nothing has to be known of a failure here. -/
theorem tolerates_all (e : Engine σ) : Tolerates e (fun _ => True) where
  host := ⟨fun _ _ _ _ => trivial, fun _ _ _ _ _ _ => trivial, fun _ _ _ _ => trivial,
    fun _ _ _ _ _ => trivial, fun _ _ _ _ _ => trivial⟩
  missing := fun _ => trivial
  stepLimit := fun _ => trivial
  callDepth := fun _ => trivial
  noJson := trivial
  violated := fun _ _ _ _ => trivial

namespace Upright

/-- The start of a playbook that is called. -/
theorem of_call {calls : Nat} (hcalls : calls < e.config.engine.maxCallDepth) {name : String}
    {callee : Definition} (hr : e.playbooks.get? name = some callee) (region : Region)
    {w : World σ} (hw : Settled e w) {thread : ThreadId} (hactive : w.hierarchy.active = thread) :
    Upright e h₀ (.start calls callee region thread w) where
  calls_le := Nat.le_of_lt hcalls
  top_before := fun heq => absurd heq (Nat.ne_of_lt hcalls)
  before := hw.openPath.toIsTree
  origin_mem := hactive ▸ hw.openPath.active_ne_none
  registered := ⟨name, hr⟩
  node_mem := callee.start_mem
  settled := hw
  stands := by
    rw [Standing.ground_start_of_lt hcalls]
    exact .start hw.openPath hactive region

/-- At top level sessions may rest on every thread. -/
theorem free_of_depth (hu : Upright e h₀ p) (hdepth : (e.level caller p.calls).depth = 0) :
    IsTree (p.ground e).before ∧ ∀ b, (p.ground e).base b := by
  have hle := hu.calls_le
  rw [Engine.level_depth] at hdepth
  rw [Standing.ground, if_pos (by omega)]
  exact ⟨hu.before, fun _ => trivial⟩

variable (hinj : Function.Injective e.supply)
include hinj

section

variable {P : Error → Prop} (hok : Engine.NodesOk e P) (ht : Tolerates e P)
include hok ht

variable (caller) in
/-- A node leaves the walk on its ground, or fails with a tolerated cause. -/
theorem node_ends (hu : Upright e h₀ p) {node : Node} (hdisp : p.Dispatches e node) :
    Exec.Ends (e.dispatch caller (e.level caller p.calls) node p.frame) (p.announced caller node)
      (fun done w' => (Settled e w' ∧ (p.announced caller node).hierarchy.Grows w'.hierarchy) ∧
        Goes (p.ground e) node done w'.hierarchy)
      (fun cause w' => (Settled e w' ∧ (p.announced caller node).hierarchy.Grows w'.hierarchy) ∧
        P cause ∧ Rests (p.ground e) w'.hierarchy) := by
  rcases hu.registered with ⟨name, hd⟩
  have hw : Settled e (p.announced caller node) :=
    World.settled_announced hu.settled caller.agent.id p.playbook node p.made
  have hends : Exec.Ends (e.dispatch caller (e.level caller p.calls) node p.frame)
      (p.announced caller node) (fun done w' => Goes (p.ground e) node done w'.hierarchy)
      (fun cause w' => P cause ∧ Rests (p.ground e) w'.hierarchy) :=
    Engine.dispatch_ends hinj ht (Engine.calleesStand_level hinj ht hok hu.calls_le)
      (Engine.calleesAct_level p.calls) (hok hd hdisp.node_eq) hw hu.stands hu.free_of_depth
  have hacts : Acts e Engine.Any (e.dispatch caller (e.level caller p.calls) node p.frame) :=
    Engine.acts_dispatch (fun _ _ => trivial) (Engine.calleesAct_level p.calls)
  exact hends.settled hinj hw hacts

/-- From a standing on its ground the walk finishes on it, or fails with a tolerated cause. -/
theorem walk_ends (hu : Upright e h₀ p) {r : Except Error WalkEnd} {w' : World σ}
    (hrest : p.rest e caller = (r, w')) :
    (Settled e w' ∧ p.world.hierarchy.Grows w'.hierarchy) ∧ Rests (p.ground e) w'.hierarchy ∧
      (∀ done, r = .ok done → done.cancelled = false → Stands (p.ground e) w'.hierarchy done.frame) ∧
      ∀ cause, r = .error cause → P cause := by
  rcases hu.registered with ⟨name, hd⟩
  have hends : Exec.Ends (e.steps caller (e.level caller p.calls) p.playbook
      (e.config.engine.maxSteps - p.made) p.made p.node p.frame) p.world
      (fun done w' => Finishes (p.ground e) done w'.hierarchy)
      (fun cause w' => P cause ∧ Rests (p.ground e) w'.hierarchy) :=
    Engine.steps_ends hinj ht hok (Engine.calleesStand_level hinj ht hok hu.calls_le)
      (Engine.calleesAct_level p.calls) hu.free_of_depth hd hu.node_mem hu.settled hu.stands
  -- what every walk keeps is added to what this one ends with
  have hends := hends.settled hinj hu.settled
    (Engine.acts_steps (Engine.calleesAct_level p.calls) _ _ _ _ _)
  rw [Standing.rest] at hrest
  cases r with
  | ok done =>
    rw [Exec.ends_of_ok hrest] at hends
    refine ⟨hends.1, hends.2.rests, ?_, fun _ hcause => (by cases hcause)⟩
    intro done' hdone hc
    cases hdone
    have hfin := hends.2
    rw [Finishes, hc] at hfin
    exact hfin
  | error cause =>
    rw [Exec.ends_of_error hrest] at hends
    refine ⟨hends.1, hends.2.2, fun _ hdone => (by cases hdone), ?_⟩
    intro cause' hcause
    cases hcause
    exact hends.2.1

end

/-- What is dispatched next stands on its ground again. -/
theorem next (hu : Upright e h₀ p) (hn : Next e caller p q) : Upright e h₀ q := by
  have hle := hu.calls_le
  have hannounced : ∀ node, Settled e (p.announced caller node) := fun node =>
    World.settled_announced hu.settled caller.agent.id p.playbook node p.made
  cases hn with
  | onward hdisp hx hgoal =>
    have hends := hu.node_ends caller hinj (Engine.nodesOk_all e) (tolerates_all e) hdisp
    rw [Exec.ends_of_ok hx] at hends
    rcases hends with ⟨⟨hw', _⟩, hgoes⟩
    rcases hgoes.goal (Definition.node_sound hdisp.node_eq) hgoal with ⟨hs, hnext⟩
    exact { calls_le := hle, top_before := hu.top_before, before := hu.before,
            origin_mem := hu.origin_mem, registered := hu.registered, node_mem := hnext,
            settled := World.settled_ticked hw' _ _ _ _ _, stands := hs }
  | inline hdisp hkind hmode hcalls hp =>
    have hr := Registry.get?_of_require (Engine.prepare_ok hp).1
    exact of_call (by omega) hr _ (hannounced _) hu.stands.thread.symm
  | isolated hdisp hkind hmode hcalls hp ho =>
    have hr := Registry.get?_of_require (Engine.prepare_ok hp).1
    -- the session of an isolated call is new and active, and its walk starts there
    rename_i node c calls callee region descend child w'
    have hends : Exec.Ends (e.open? caller c.windowRatio (some callee.name))
        (p.announced caller node) _ _ :=
      (Engine.open?_ends (hannounced node) c.windowRatio (some callee.name)).settled hinj
        (hannounced node) (Engine.acts_open? _ _)
    rw [Exec.ends_of_ok ho] at hends
    rcases hends with ⟨⟨hw', _⟩, _, _, _, he⟩
    exact of_call (by omega) hr _ hw' he.active

theorem visits (hu : Upright e h₀ p) (hv : Visits e caller p q) : Upright e h₀ q := by
  induction hv with
  | refl => exact hu
  | tail _ hlast ih => exact ih.next hinj hlast

end Upright

/-! ## What can be seen of it -/

/-- A walk in step with the hierarchy: it acts in the active thread, and its open sessions are the
innermost threads on the way to it. Below top level these are the threads beneath the one in which the
walk started, which is open itself; at top level they are the open threads that the run has created. -/
structure InStep (isTop : Prop) (before : Hierarchy) (origin : ThreadId) (h : Hierarchy) (f : Frame) :
    Prop where
  thread : f.thread = h.active
  innermost : f.opened.reverse <:+ h.lineage h.active
  nested : ¬ isTop → h.lineage h.active = h.lineage origin ++ f.opened.reverse ∧
    ∃ t, h.get? origin = some t ∧ t.status = .active
  top : isTop → ∀ id, id ∈ f.opened ↔
    before.get? id = none ∧ ∃ t, h.get? id = some t ∧ t.status = .active

/-- Below top level. -/
theorem Stands.inStep_under {before h : Hierarchy} {origin : ThreadId} {f : Frame} {isTop : Prop}
    (hs : Stands (.under before origin) h f) (hbelow : ¬ isTop) (h₀ : Hierarchy) :
    InStep isTop h₀ origin h f := by
  -- the sessions rest on the very thread in which the walk started
  rcases hs.resting with ⟨b, rfl, hb, hline⟩
  rcases Option.ne_none_iff_exists'.1 (hs.grows.isSome hb) with ⟨t, hg⟩
  refine ⟨hs.thread, ⟨_, hline.symm⟩, fun _ => ⟨hline, t, hg, ?_⟩, fun htop => absurd htop hbelow⟩
  refine (hs.openPath.active_iff hg).2 ?_
  rw [hline]
  exact List.mem_append_left _ (hs.openPath.self_mem_lineage hg)

/-- At top level. -/
theorem Stands.inStep_free {before h : Hierarchy} {f : Frame} {isTop : Prop}
    (hs : Stands (.free before) h f) (hbefore : IsTree before) (htop : isTop) (origin : ThreadId) :
    InStep isTop before origin h f := by
  rcases hs.resting with ⟨b, _, hb, hline⟩
  refine ⟨hs.thread, ⟨_, hline.symm⟩, fun hbelow => absurd htop hbelow, fun _ id => ⟨?_, ?_⟩⟩
  · intro hid
    have hmem : id ∈ h.lineage h.active := by
      rw [hline]
      exact List.mem_append_right _ (List.mem_reverse.2 hid)
    obtain ⟨t, hg⟩ := hs.openPath.get?_of_mem_lineage hmem
    exact ⟨hs.opened_new id hid, t, hg, (hs.openPath.active_iff hg).2 hmem⟩
  · rintro ⟨hnone, t, hg, hstatus⟩
    have hmem := (hs.openPath.active_iff hg).1 hstatus
    rw [hline, List.mem_append] at hmem
    refine List.mem_reverse.1 (hmem.resolve_left ?_)
    intro habove
    -- what is above the ground was there before the walk
    rw [hs.grows.lineage_eq hbefore hs.openPath.toIsTree hb] at habove
    obtain ⟨u, hu⟩ := hbefore.get?_of_mem_lineage habove
    have hnone' : before.get? id = none := hnone
    rw [hnone'] at hu
    cases hu

theorem Upright.inStep (hu : Upright e h₀ p) {h : Hierarchy} {f : Frame}
    (hs : Stands (p.ground e) h f) :
    InStep (p.calls = e.config.engine.maxCallDepth) h₀ p.origin h f := by
  by_cases htop : p.calls = e.config.engine.maxCallDepth
  · have hground : p.ground e = .free h₀ := by
      rw [Standing.ground, if_pos htop, hu.top_before htop]
    rw [hground] at hs
    exact hs.inStep_free (hu.top_before htop ▸ hu.before) htop p.origin
  · have hground : p.ground e = .under p.before p.origin := by
      rw [Standing.ground, if_neg htop]
    rw [hground] at hs
    exact hs.inStep_under htop h₀

namespace Engine

/-- Everything that a run dispatches stands on its ground. -/
theorem upright_of_run (hinj : Function.Injective e.supply) {name : String} {args : Dict Json}
    {w : World σ} (hw : Settled e w) (hv : e.Visited caller name args w p) :
    Upright e w.hierarchy p := by
  rcases hv with ⟨d, region, hb, hvisits⟩
  -- the playbook comes from the registry, so its walk can start upright
  have hd : e.playbooks.require name = .ok d := by
    rcases Checked.bind_eq_ok.1 hb with ⟨d', hr, hrest⟩
    split at hrest
    · cases hrest
    · rcases Checked.bind_eq_ok.1 hrest with ⟨_, _, hok⟩
      cases hok
      exact hr
  refine Upright.visits hinj ?_ hvisits
  exact {
    calls_le := Nat.le_refl _
    top_before := fun _ => rfl
    before := hw.openPath.toIsTree
    origin_mem := hw.openPath.active_ne_none
    registered := ⟨name, Registry.get?_of_require hd⟩
    node_mem := d.start_mem
    settled := ⟨hw.openPath, hw.fresh⟩
    stands := by
      rw [Standing.ground_start]
      exact .startFree hw.openPath region }

/-- Walks and sessions stay aligned in every run. Every start of a node that is logged is that of a
standing of the run; wherever it dispatches a node, and whenever a walk or the run itself completes
normally, the walk is in step; a session that is left is the active thread; and whatever becomes of a
called walk, the threads at or above the one in which it started are still open then. -/
theorem inStep_of_run (caller : Caller) (hinj : Function.Injective e.supply) {w : World σ} (hw : Settled e w)
    (name : String) (args : Dict Json) :
    (∀ i playbook node step, w.events.length ≤ i →
      (e.run caller name args w).2.events[i]? =
        some ⟨caller.agent.id, .nodeStarted playbook node step⟩ →
      ∃ p n, e.Visited caller name args w p ∧ p.Dispatches e n ∧
        p.world.events = (e.run caller name args w).2.events.take i ∧ p.playbook.name = playbook ∧
        n.id = node ∧ p.made + 1 = step) ∧
    (∀ p, e.Visited caller name args w p →
      (∀ node, p.Dispatches e node →
        InStep (p.calls = e.config.engine.maxCallDepth) w.hierarchy p.origin p.world.hierarchy p.frame ∧
        ∀ id rest, p.frame.sessions = some id :: rest → id = p.world.hierarchy.active) ∧
      (∀ done w', p.rest e caller = (.ok done, w') → done.cancelled = false →
        InStep (p.calls = e.config.engine.maxCallDepth) w.hierarchy p.origin w'.hierarchy done.frame) ∧
      (p.calls ≠ e.config.engine.maxCallDepth → ∀ id ∈ p.before.lineage p.origin,
        ∃ t, (p.rest e caller).2.hierarchy.get? id = some t ∧ t.status = .active)) ∧
    (∀ o w', e.run caller name args w = (.ok o, w') → o.status = .completed →
      InStep True w.hierarchy w.hierarchy.active w'.hierarchy o.frame) := by
  refine ⟨?_, ?_, ?_⟩
  · intro i playbook node step hi hev
    rcases (run_logs e caller name args w).2 i _ hi hev fun hquiet => hquiet with ⟨p, n, hv, hd, hlog, heq⟩
    cases heq
    exact ⟨p, n, hv, hd, hlog, rfl, rfl, rfl⟩
  · intro p hv
    have hu := upright_of_run hinj hw hv
    refine ⟨fun node _ => ⟨hu.inStep hu.stands, fun id rest hf => (hu.stands.pop hf).1⟩, ?_, ?_⟩
    · intro done w' hrest hc
      rcases hu.walk_ends hinj (nodesOk_all e) (tolerates_all e) hrest with ⟨_, _, hs, _⟩
      exact hu.inStep (hs done rfl hc)
    · intro hbelow id hid
      rcases hrest : p.rest e caller with ⟨r, w'⟩
      rcases hu.walk_ends hinj (nodesOk_all e) (tolerates_all e) hrest with ⟨⟨hw', hgrows⟩, hrests, _⟩
      have hground : p.ground e = .under p.before p.origin := if_neg hbelow
      have hstands := hu.stands
      rw [hground] at hrests hstands
      have hopen := (rests_under (g := .under p.before p.origin)).1 hrests
      -- what is above the thread in which the walk started has not changed
      have hline := (hstands.grows.trans hgrows).lineage_eq hu.before hw'.openPath.toIsTree
        hu.origin_mem
      have hmem := hw'.openPath.lineage_subset hopen (hline ▸ hid)
      obtain ⟨t, hg⟩ := hw'.openPath.get?_of_mem_lineage hmem
      exact ⟨t, hg, (hw'.openPath.active_iff hg).2 hmem⟩
  · intro o w' hrun hstatus
    have hends : Exec.Ends (e.run caller name args) w _ _ := run_ends hinj hw name args
    rw [Exec.ends_of_ok hrun] at hends
    rcases hends with ⟨done, w₁, hstart, ⟨hc, _, hframe, hsame⟩ | ⟨hcancelled, _⟩⟩
    · cases hb : e.bindArguments name args with
      | error cause =>
        rw [start_of_error hb] at hstart
        cases hstart
      | ok bound =>
        rcases bound with ⟨d, region⟩
        rw [start_eq_rest hb] at hstart
        have hv : e.Visited caller name args w _ := ⟨d, region, hb, .refl⟩
        have hu := upright_of_run hinj hw hv
        rcases hu.walk_ends hinj (nodesOk_all e) (tolerates_all e) hstart with ⟨_, _, hs, _⟩
        have hdone := hs done rfl hc
        rw [Standing.ground_start] at hdone
        rw [hframe, hsame]
        exact hdone.inStep_free hw.openPath.toIsTree trivial w.hierarchy.active
    · rw [hstatus] at hcancelled
      cases hcancelled

end Engine

/-- The visit is in step when it is about to fail. -/
theorem Outing.visit_inStep :
    ∃ p, Outing.engine.Visited Outing.traveller "outing" .empty Outing.world p ∧
      p.playbook.name = "visit" ∧
      InStep (p.calls = Outing.engine.config.engine.maxCallDepth) Outing.world.hierarchy p.origin
        p.world.hierarchy p.frame := by
  rcases Engine.inStep_of_run Outing.traveller unary_injective Outing.settled "outing" .empty with ⟨hlogs, hwalks, _⟩
  have hev : (Outing.engine.run Outing.traveller "outing" .empty Outing.world).2.events[9]? =
      some ⟨"agent", .nodeStarted "visit" "look" 2⟩ := rfl
  rcases hlogs 9 "visit" "look" 2 (Nat.zero_le _) hev with ⟨p, node, hv, hd, _, hname, _, _⟩
  exact ⟨p, hv, hname, ((hwalks p hv).1 node hd).1⟩

end Playbook
