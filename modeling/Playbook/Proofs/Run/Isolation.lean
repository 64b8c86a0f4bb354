import Playbook.Proofs.Hierarchy.Confined
import Playbook.Proofs.Run.Recovery

/-! # Calls in a session of their own

A playbook that is called in a session of its own leaves nothing behind but that session, closed with all
that was opened beneath it: the caller finds one more anchor in its thread, and everything else as it
was.

Main statements: `Deed.confined` says that as long as a session is open only what lies at or beneath it
changes, `Deeds.confined` that whole walks are confined so, `Engine.callIsolated_ok` what a call that succeeds
has done, and `Engine.bracketed_of_run` what it leaves behind in every run.
-/

namespace Playbook

open Hierarchy
open Relation (ReflTransGen)

variable {σ : Type} {e : Engine σ} {caller : Caller} {agent : String} {w w' : World σ}
  {h h' : Hierarchy} {child : ThreadId}

/-! ## Confined walks -/

/-- The scope of walks that stand on their ground: something is said in the active thread only. -/
def Scope.inActive : Scope := ⟨fun h thread => thread = h.active, fun _ => True⟩

/-- As long as a thread is open, a deed changes only what lies at or beneath it. -/
theorem Deed.confined (hs : Settled e w) (hd : Deed e agent .inActive w w')
    (hgrows : w.hierarchy.Grows w'.hierarchy) (hne : w.hierarchy.get? child ≠ none) {t' : Thread}
    (hg' : w'.hierarchy.get? child = some t') (hopen : t'.status = .active) :
    Confined child w.hierarchy w'.hierarchy := by
  have ho := hs.openPath
  -- a session that is open afterwards was open before, so the active one lies beneath it
  rcases hgrows.open_before hne hg' hopen with ⟨t, hg, hact⟩
  have hmem : child ∈ w.hierarchy.lineage w.hierarchy.active := (ho.active_iff hg).1 hact
  cases hd with
  | recorded host cancels thread content h hS hr =>
    have hthread : thread = w.hierarchy.active := hS
    rw [hthread] at hr
    exact record_confined hmem hr
  | entered ratio label h u he hu =>
    rcases enter_ok ho.toIsTree ho.active_ne_none he with ⟨_, hent⟩
    exact ho.enter_confined hmem (hs.fresh w.drawn (Nat.le_refl _)) hent
  | left id chronicle h hl => exact leave_confined hmem hl
  | aborted id h ids ha => exact ho.abort_confined_self hmem ha hg' hopen
  | _ => exact .refl child _

/-- As long as a thread is open, walks change only what lies at or beneath it. -/
theorem Deeds.confined (hinj : Function.Injective e.supply) (hs : Settled e w)
    (hd : Deeds e agent .inActive w w') (hne : w.hierarchy.get? child ≠ none) {t' : Thread}
    (hg' : w'.hierarchy.get? child = some t') (hopen : t'.status = .active) :
    Confined child w.hierarchy w'.hierarchy := by
  induction hd generalizing t' with
  | refl => exact .refl child _
  | tail hfirst hlast ih =>
    rcases Deeds.settled hinj hs hfirst with ⟨hmid, hgrows⟩
    rcases hlast.settled hinj hmid with ⟨hend, hgrows'⟩
    have hne' := hgrows.isSome hne
    rcases hgrows'.open_before hne' hg' hopen with ⟨t, hg, hact⟩
    have hfirst' := ih hg hact
    have hlast' := hlast.confined hmid hgrows' hne' hg' hopen
    exact hfirst'.trans hs.openPath.toIsTree hmid.openPath.toIsTree hend.openPath.toIsTree hgrows hgrows'
      hlast'

/-- A walk that can be reached in a run speaks in the active thread only. -/
theorem Upright.rest_does (hinj : Function.Injective e.supply) {h₀ : Hierarchy} {p : Standing σ}
    (hu : Upright e h₀ p) : Deeds e caller.agent.id .inActive p.world (p.rest e caller).2 := by
  refine Standing.rest_does p ?_
  intro q node hvisits _
  exact ⟨(hu.visits hinj hvisits).stands.thread, trivial⟩

/-! ## What a call that succeeds has done -/

namespace Engine

variable {node : Node} {level : Level σ} {f f' : Frame} {id : ThreadId} {c : Call}

/-- Making a chronicle does not change the hierarchy. -/
theorem chronicle_hierarchy (id thread : ThreadId) (w : World σ) :
    (e.chronicle caller id thread w).2.hierarchy = w.hierarchy := by
  by_cases hid : w.hierarchy.get? id = none
  · rw [chronicle, Exec.bind_run]
    simp only [Exec.look, transcript, require_eq_error hid]
    rfl
  · have hends : Exec.Ends (e.chronicle caller id thread) w _ _ := chronicle_ends (tolerates_all e) hid
    rcases Exec.cases_run (e.chronicle caller id thread) w with ⟨text, hx⟩ | ⟨cause, hx⟩
    · exact (Exec.ends_of_ok hx).1 hends
    · exact ((Exec.ends_of_error hx).1 hends).2

/-- A session that is closed is left, with a chronicle if there is to be one. -/
theorem close_ok {summarize : Bool} (hx : e.close caller id summarize f w = (.ok f', w')) :
    ∃ text, text.isSome = summarize ∧ w.hierarchy.leave id text e.now = .ok w'.hierarchy ∧
      f'.sessions = f.sessions := by
  obtain ⟨_, _, hsessions⟩ := (close_frame id summarize f).of_eq_ok hx
  have hcomplete : ∀ {text w₁}, e.complete caller id text f w₁ = (.ok f', w') →
      w₁.hierarchy.leave id text e.now = .ok w'.hierarchy := by
    intro text w₁ hc
    rw [complete_eq] at hc
    cases hl : w₁.hierarchy.leave id text e.now with
    | ok h =>
      rw [hl] at hc
      cases hc
      rfl
    | error cause =>
      rw [hl] at hc
      cases hc
  cases summarize with
  | false => exact ⟨none, rfl, hcomplete hx, hsessions⟩
  | true =>
    rw [close, if_pos rfl] at hx
    rcases Exec.bind_eq_ok.1 hx with ⟨r, w₁, hattempt, hrest⟩
    have hsame : w₁.hierarchy = w.hierarchy := by
      have hworld : (e.chronicle caller id f.thread w).2.hierarchy = w.hierarchy :=
        chronicle_hierarchy id f.thread w
      cases hattempt
      exact hworld
    cases r with
    | ok text => exact ⟨some text, rfl, hsame ▸ hcomplete hrest, hsessions⟩
    | error cause =>
      -- without a chronicle the session is aborted, and the failure goes on
      rcases Exec.bind_eq_ok.1 hrest with ⟨_, w₂, _, hthrow⟩
      cases hthrow

/-- When all sessions are closed, each of them is completed and has a chronicle. -/
theorem closeAll_ok (hinj : Function.Injective e.supply) (hs : Settled e w)
    {ids : List (Option ThreadId)} (hx : e.closeAll caller ids f w = (.ok f', w')) :
    f'.sessions = [] ∧ ∀ id ∈ ids.filterMap (fun o => o), ∃ t, w'.hierarchy.get? id = some t ∧
      t.status = .completed ∧ t.chronicle.isSome = true := by
  induction ids generalizing f w with
  | nil =>
    cases hx
    exact ⟨rfl, fun id hid => absurd hid List.not_mem_nil⟩
  | cons entry rest ih =>
    cases entry with
    | none => exact ih hs hx
    | some x =>
      rcases Exec.bind_eq_ok.1 hx with ⟨f₁, w₁, hclose, hrest⟩
      have hacts : Acts e Quiet (e.close caller x true { f with sessions := rest }) := acts_close x true
      have hsettled := (hacts w).settled hinj hs
      rw [hclose] at hsettled
      rcases ih hsettled.1 hrest with ⟨hsessions, hothers⟩
      refine ⟨hsessions, ?_⟩
      intro id hid
      rcases List.mem_cons.1 (show id ∈ x :: rest.filterMap (fun o => o) from hid) with rfl | hid
      · -- what was closed first stays as it is while the others are closed
        rcases close_ok hclose with ⟨text, htext, hl, _⟩
        rcases leave_maps hl with ⟨_, t, _, hg, _, hm⟩
        have hleft := hm.get? id
        rw [hg, Option.map_some, if_pos rfl] at hleft
        have hlater : Acts e Quiet (e.closeAll caller rest f₁) := acts_closeAll rest f₁
        have hgrows := ((hlater w₁).settled hinj hsettled.1).2
        rw [hrest] at hgrows
        rcases hgrows.thread hleft with ⟨t', hg', hgrow⟩
        have hstatus : t'.status = .completed := hgrow.closed (by simp)
        refine ⟨t', hg', hstatus, ?_⟩
        rw [hgrow.kept hstatus]
        exact htext
      · exact hothers id hid

/-- An isolated call that is neither cancelled nor fails has walked the playbook, then closed the sessions
that were left open, and then its own. -/
theorem callIsolated_ok {callee : Definition} {region : Region}
    {descend : Definition → Frame → Exec σ WalkEnd} {summarize : Bool} {child : ThreadId}
    {done : WalkEnd}
    (hx : e.callIsolated caller callee region descend summarize child w = (.ok done, w'))
    (hc : done.cancelled = false) :
    ∃ done₁ w₁ f₂ w₂, descend callee (.start region child) w = (.ok done₁, w₁) ∧
      done₁.cancelled = false ∧
      e.closeAll caller done₁.frame.sessions done₁.frame w₁ = (.ok f₂, w₂) ∧
      e.close caller child summarize f₂ w₂ = (.ok done.frame, w') := by
  rw [callIsolated_eq] at hx
  rcases Exec.bind_eq_ok.1 hx with ⟨r, w₀, hattempt, hrest⟩
  cases r with
  | error cause =>
    rcases Exec.bind_eq_ok.1 hrest with ⟨_, _, _, hthrow⟩
    cases hthrow
  | ok done' =>
    have hwalk : e.walkIsolated caller callee region descend summarize child w = (.ok done', w₀) := by
      rcases hr : e.walkIsolated caller callee region descend summarize child w with ⟨r, w₁⟩
      rw [Exec.attempt, hr] at hattempt
      cases hattempt
      rfl
    -- a walk that was cancelled would have been handed back as such
    have hdone : done' = done ∧ w₀ = w' := by
      simp only at hrest
      cases hcancelled : done'.cancelled with
      | false =>
        rw [hcancelled] at hrest
        cases hrest
        exact ⟨rfl, rfl⟩
      | true =>
        rw [hcancelled] at hrest
        rcases Exec.bind_eq_ok.1 hrest with ⟨_, w₂, _, hpure⟩
        cases hpure
        rw [hc] at hcancelled
        cases hcancelled
    rcases hdone with ⟨rfl, rfl⟩
    rcases Exec.bind_eq_ok.1 hwalk with ⟨done₁, w₁, hdescend, hclosing⟩
    cases hcancelled : done₁.cancelled with
    | true =>
      rw [hcancelled, if_pos rfl] at hclosing
      cases hclosing
      rw [hc] at hcancelled
      cases hcancelled
    | false =>
      rw [hcancelled, if_neg Bool.false_ne_true] at hclosing
      rcases Exec.bind_eq_ok.1 hclosing with ⟨f₂, w₂, hall, hown⟩
      rcases Exec.bind_eq_ok.1 hown with ⟨f₃, w₃, hclose, hpure⟩
      cases hpure
      exact ⟨done₁, w₁, f₂, w₂, hdescend, hcancelled, hall, hclose⟩

/-- A node that calls goes on only when its call does. -/
theorem call_of_invoke_proceed (hx : e.invoke caller node c level f w = (.ok (.proceed, f'), w')) :
    e.call caller node c level f w = (.ok (.proceed, f'), w') := by
  unfold invoke at hx
  cases hf : c.onFailure with
  | none =>
    rw [hf] at hx
    exact hx
  | some target =>
    rw [hf] at hx
    rcases Exec.bind_eq_ok.1 hx with ⟨r, w₁, hattempt, hrest⟩
    rcases hr : e.call caller node c level f w with ⟨r', w₂⟩
    rw [Exec.attempt, hr] at hattempt
    cases hattempt
    cases r' with
    | ok done =>
      cases hrest
      rfl
    -- a failure that is caught leads to a branch
    | error cause =>
      rcases Exec.bind_eq_ok.1 hrest with ⟨_, _, _, hbranch⟩
      cases hbranch

/-- A session is rejected only where it would be too deep. -/
theorem depth_of_open?_error (hs : Settled e w) {ratio : Option Double} {label : Option String}
    {cause : Error} (hx : e.open? caller ratio label w = (.ok (.error cause), w')) :
    ∃ t, w.hierarchy.get? w.hierarchy.active = some t ∧ w.hierarchy.limits.maxDepth ≤ t.depth := by
  rcases hs.openPath.active_mem with ⟨t, hg⟩
  rcases enter_cases hs.openPath.toIsTree hg (e.supply w.drawn) ratio label e.now with
    ⟨hdepth, _⟩ | ⟨h, henter, _⟩
  · exact ⟨t, hg, hdepth⟩
  · simp only [open?, henter] at hx
    cases hx

/-- An isolated call that proceeds, where there was room for its session, has entered the session and made
the call there; the walk of the caller gets the sessions that the call hands over. -/
theorem call_isolated_ok (hs : Settled e w) (hmode : c.mode = .isolated)
    (hkey : ∀ k, c.outputKey = some k → isReserved k = false)
    (hroom : ∀ t, w.hierarchy.get? w.hierarchy.active = some t → t.depth < w.hierarchy.limits.maxDepth)
    (hx : e.call caller node c level f w = (.ok (.proceed, f'), w')) :
    ∃ callee region descend child w₁ done, e.prepare c level f = .ok (callee, region, descend) ∧
      e.open? caller c.windowRatio (some callee.name) w = (.ok (.ok child), w₁) ∧
      e.callIsolated caller callee region descend c.summarize child w₁ = (.ok done, w') ∧
      done.cancelled = false ∧ f'.thread = f.thread ∧
      f'.sessions = done.frame.sessions ++ f.sessions := by
  rcases hp : e.prepare c level f with cause | ⟨callee, region, descend⟩
  · rw [call_of_error hp] at hx
    cases hx
  · rw [call_isolated hp hmode] at hx
    rcases Exec.bind_eq_ok.1 hx with ⟨r, w₁, hopen, hrest⟩
    cases r with
    | error cause =>
      rcases depth_of_open?_error hs hopen with ⟨t, hg, hdeep⟩
      exact absurd (hroom t hg) (Nat.not_lt.2 hdeep)
    | ok child =>
      rcases Exec.bind_eq_ok.1 hrest with ⟨done, w₂, hisolated, habsorb⟩
      -- what the caller keeps of the call does not touch the world
      rcases absorb_ok hkey false done f with ⟨f₂, hkeeps, hthread, hsessions⟩
      rw [hkeeps] at habsorb
      have hc : done.cancelled = false := by
        cases hc : done.cancelled with
        | false => rfl
        | true =>
          rw [hc] at habsorb
          cases habsorb
      rw [hc] at habsorb
      cases habsorb
      exact ⟨callee, region, descend, child, w₁, done, rfl, hopen, hisolated, hc, hthread, hsessions⟩

end Engine

/-! ## What it leaves behind -/

/-- A hierarchy after a call in a session of its own, seen from the hierarchy before the call. -/
structure Hierarchy.Bracketed (h h' : Hierarchy) (child : ThreadId) (summarize : Bool) : Prop where
  /-- The session is new. -/
  fresh : h.get? child = none
  /-- Its anchor is all that is new in the thread of the caller. -/
  anchored : h'.get? h.active = (h.get? h.active).map fun t => t.push (.anchor child)
  /-- No other thread has changed. -/
  kept : ∀ id, id ≠ h.active → h.get? id ≠ none → h'.get? id = h.get? id
  /-- The session and all that was opened beneath it is closed. -/
  beneath : ∀ id t, h.get? id = none → h'.get? id = some t →
    child ∈ h'.lineage id ∧ (t.status = .completed ∨ t.status = .aborted)
  /-- The session is completed. -/
  completed : ∃ t, h'.get? child = some t ∧ t.parent = some h.active ∧ t.status = .completed ∧
    t.chronicle.isSome = summarize
  active : h'.active = h.active

/-- A session is entered, everything is confined to it for a while, and then it is left. -/
theorem Hierarchy.Bracketed.of_leave {parent : Thread} {ratio : Double} {label text : Option String}
    {now now' : Time} (ho : OpenPath h) (hfresh : h.get? child = none)
    (he : Enters h h' child parent (Thread.nested child parent ratio label now)) {mid : Hierarchy}
    (hmid : OpenPath mid) (hgrows : h'.Grows mid) (hconfined : Confined child h' mid)
    (hl : mid.leave child text now' = .ok h'') : Bracketed h h'' child text.isSome := by
  rcases OpenPath.enter ho hfresh he with ⟨ho', hgrows'⟩
  rcases leave_maps hl with ⟨_, t, p, hg, hp, hm⟩
  have hsteady := hmid.leave hl
  -- the session keeps its parent, the thread of the caller
  have hactive : h''.active = h.active := by
    have hparent : t.parent = some parent.id := (hgrows.thread' he.get?_new hg).parent
    rw [hm.active, ← ho.id_eq he.parent]
    exact Option.some.inj (hp.symm.trans hparent)
  have hleft : h''.get? child = some (t.close .completed text now') := by
    rw [hm.get?, hg, Option.map_some, if_pos rfl]
  have hother : ∀ {id}, id ≠ child → h''.get? id = mid.get? id := by
    intro id hne
    rw [hm.get?]
    cases mid.get? id with
    | none => rfl
    | some u => rw [Option.map_some, if_neg hne]
  have hold : ∀ {id}, h.get? id ≠ none → id ≠ child ∧ h''.get? id = h'.get? id := by
    intro id hid
    have hne : id ≠ child := fun heq => hid (heq ▸ hfresh)
    have hout : child ∉ h'.lineage id := by
      rw [hgrows'.lineage_eq ho.toIsTree ho'.toIsTree hid]
      intro hmem
      obtain ⟨u, hu⟩ := ho.get?_of_mem_lineage hmem
      rw [hfresh] at hu
      cases hu
    refine ⟨hne, ?_⟩
    rw [hother hne, hconfined.kept (hgrows'.isSome hid) hout]
  have hrestored : Restored h h'' :=
    .of_grows ho hsteady.openPath ((hgrows'.trans hgrows).trans hsteady.grows) hactive
  refine { fresh := hfresh, anchored := ?_, kept := ?_, beneath := ?_, completed := ?_,
           active := hactive }
  · rcases hold ho.active_ne_none with ⟨hne, hsame⟩
    rw [hsame, he.get?_old hne, he.parent, Option.map_some, Option.map_some, if_pos rfl]
  · intro id hne hid
    rcases hold hid with ⟨hchild, hsame⟩
    rw [hsame, he.get?_old hchild]
    cases h.get? id with
    | none => rfl
    | some u => rw [Option.map_some, if_neg hne]
  · intro id u hnone hu
    refine ⟨?_, hrestored.created_closed id u hnone hu⟩
    by_cases hne : id = child
    · rw [hne]
      exact hsteady.openPath.self_mem_lineage hleft
    · -- what came later lies beneath the session
      have hnone' : h'.get? id = none := by
        rw [he.get?_old hne, hnone]
        rfl
      have hlater : mid.get? id ≠ none := by
        rw [← hother hne, hu]
        exact Option.some_ne_none _
      rw [hsteady.places.lineage_eq hmid.toIsTree]
      exact hconfined.beneath hnone' hlater
  · refine ⟨_, hleft, ?_, rfl, rfl⟩
    rw [Thread.close_parent, hp, ← hm.active, hactive]

namespace Engine

variable {node : Node} {f' : Frame} {c : Call}

/-- In every run, where a playbook is called in a session of its own, is not rejected for its depth, and
neither fails nor is cancelled, the call is bracketed by that session. What the called walk has left open is
completed with a chronicle, and the walk of the caller is where it was. -/
theorem bracketed_of_run (hinj : Function.Injective e.supply) (hw : Settled e w) {name : String}
    {args : Dict Json} {p : Standing σ} (hv : e.Visited caller name args w p)
    (hdisp : p.Dispatches e node) (hkind : node.kind = .invoke c) (hmode : c.mode = .isolated)
    (hroom : ∀ t, p.world.hierarchy.get? p.world.hierarchy.active = some t →
      t.depth < p.world.hierarchy.limits.maxDepth)
    (hok : p.outcome e caller node = (.ok (.proceed, f'), w')) :
    ∃ calls callee region child w₁ done,
      e.playbooks.require c.playbook = .ok callee ∧
      Next e caller p (.start calls callee region child w₁) ∧
      ((Standing.start calls callee region child w₁).rest e caller).1 = .ok done ∧
      p.world.hierarchy.Bracketed w'.hierarchy child c.summarize ∧
      (∀ id ∈ done.frame.opened, ∃ t, w'.hierarchy.get? id = some t ∧ t.status = .completed ∧
        t.chronicle.isSome = true) ∧
      p.frame.thread = p.world.hierarchy.active ∧ f'.thread = p.frame.thread ∧
      f'.sessions = p.frame.sessions := by
  have hu : Upright e w.hierarchy p := upright_of_run hinj hw hv
  have hannounced : Settled e (p.announced caller node) :=
    World.settled_announced hu.settled caller.agent.id p.playbook node p.made
  have hcall : e.call caller node c (e.level caller p.calls) p.frame (p.announced caller node) =
      (.ok (.proceed, f'), w') := by
    refine call_of_invoke_proceed ?_
    rw [← hok]
    simp only [Standing.outcome, dispatch, hkind]
  have hkey : ∀ k, c.outputKey = some k → isReserved k = false := by
    intro k hk
    apply (Definition.node_sound hdisp.node_eq).writes k
    simp [Node.writes, hkind, hk]
  rcases call_isolated_ok hannounced hmode hkey hroom hcall with
    ⟨callee, region, descend, child, w₁, done, hp, hopen, hisolated, hc, hthread, hsessions⟩
  rcases prepare_ok hp with ⟨hcallee, hdescend, _⟩
  rcases descend_level hdescend with ⟨calls, hcalls, rfl⟩
  have hends : Exec.Ends (e.open? caller c.windowRatio (some callee.name)) (p.announced caller node) _ _ :=
    open?_ends hannounced c.windowRatio (some callee.name)
  rw [Exec.ends_of_ok hopen] at hends
  rcases hends with ⟨hfresh, parent, ratio, henters⟩
  have hn : Next e caller p (.start calls callee region child w₁) :=
    .isolated hdisp hkind hmode hcalls hp hopen
  have hq : Upright e w.hierarchy (.start calls callee region child w₁) := hu.next hinj hn
  rcases callIsolated_ok hisolated hc with ⟨done₁, w₂, f₃, w₃, hwalk, _, hall, hclose⟩
  rw [Standing.walk_eq_rest] at hwalk
  -- until its session is closed, the call consists of the called walk and of closing what that left open
  have hfirst : Deeds e caller.agent.id .inActive w₁ _ := hq.rest_does hinj
  have hthen : Along (Deeds e caller.agent.id .inActive)
      (e.closeAll caller done₁.frame.sessions done₁.frame) w₂ := (carried_does ..).closedAll _
  rw [hwalk] at hfirst
  rw [Along, hall] at hthen
  have hw₂ : Settled e w₂ := (hfirst.settled hinj hq.settled).1
  have hdeeds : Deeds e caller.agent.id .inActive w₁ w₃ := hfirst.trans hthen
  rcases hdeeds.settled hinj hq.settled with ⟨hw₃, hgrows⟩
  rcases close_ok hclose with ⟨text, htext, hleave, hsame⟩
  rcases closeAll_ok hinj hw₂ hall with ⟨hnone, hcompleted⟩
  -- the session can be left, so it was open until then
  rcases leave_maps hleave with ⟨hactive, t, _, hg, _, hm⟩
  have hopen₃ : t.status = .active := hw₃.openPath.status_active (hactive ▸ hg)
  have hne : w₁.hierarchy.get? child ≠ none := by
    rw [henters.get?_new]
    exact Option.some_ne_none _
  have hconfined := hdeeds.confined hinj hq.settled hne hg hopen₃
  have hbracketed := Bracketed.of_leave hu.settled.openPath hfresh henters hw₃.openPath hgrows hconfined
    hleave
  rw [htext] at hbracketed
  refine ⟨calls, callee, region, child, w₁, done₁, hcallee, hn, by rw [hwalk], hbracketed, ?_,
    hu.stands.thread, hthread, ?_⟩
  · intro id hid
    rcases hcompleted id hid with ⟨u, hu₃, hstatus, hchronicle⟩
    have hother : id ≠ child := by
      rintro rfl
      rw [hg] at hu₃
      cases hu₃
      rw [hopen₃] at hstatus
      cases hstatus
    refine ⟨u, ?_, hstatus, hchronicle⟩
    rw [hm.get?, hu₃, Option.map_some, if_neg hother]
  · rw [hsessions, hsame, hnone, List.nil_append]

end Engine

/-- The start of the tour, before the night in the inn. -/
def Tour.gate : Standing Unit :=
  .start Tour.engine.config.engine.maxCallDepth Tour.tour .empty Outing.world.hierarchy.active
    (Outing.world.begun "agent" Tour.tour)

/-- The inn leaves its own session open, which is completed with the stay. -/
theorem Tour.stay_bracketed :
    ∃ child w', (Tour.gate.outcome Tour.engine Outing.traveller Tour.stay).2 = w' ∧
      Tour.gate.world.hierarchy.Bracketed w'.hierarchy child true := by
  have hv : Tour.engine.Visited Outing.traveller "tour" .empty Outing.world Tour.gate :=
    ⟨Tour.tour, .empty, rfl, .refl⟩
  have hdisp : Tour.gate.Dispatches Tour.engine Tour.stay := ⟨rfl, by decide, rfl⟩
  have hroom : ∀ t, Tour.gate.world.hierarchy.get? Tour.gate.world.hierarchy.active = some t →
      t.depth < Tour.gate.world.hierarchy.limits.maxDepth := by
    intro t hg
    have hdepth : (Tour.gate.world.hierarchy.get? Tour.gate.world.hierarchy.active).map (·.depth) =
        some 1 := by decide +kernel
    rw [hg] at hdepth
    have hone : t.depth = 1 := Option.some.inj hdepth
    rw [hone]
    decide
  have hproceeds : ((Tour.gate.outcome Tour.engine Outing.traveller Tour.stay).1.toOption.map (·.1)) =
      some .proceed := by decide +kernel
  rcases hok : Tour.gate.outcome Tour.engine Outing.traveller Tour.stay with ⟨cause | ⟨step, f'⟩, w'⟩
  · rw [hok] at hproceeds
    cases hproceeds
  · rw [hok] at hproceeds
    cases hproceeds
    rcases Engine.bracketed_of_run unary_injective Tour.settled hv hdisp rfl rfl hroom hok with
      ⟨_, _, _, child, _, _, _, _, _, hbracketed, _⟩
    exact ⟨child, w', rfl, hbracketed⟩

end Playbook
