import Playbook.Proofs.Run.Accounts
import Playbook.Proofs.Run.InStep

/-! # After a failure that is tolerated

A node that calls a playbook may say where to go when the call fails. However deep the failure was, and
whatever the called walks had opened and moved by then, the caller goes on as if nothing had happened but
for the message of the error, and for what was used and noted.

Main statements: `Hierarchy.Restored.of_grows` says when a hierarchy is what it was but for closed threads,
and `Engine.restored_of_run` says so of every tolerated failure in every run.
-/

namespace Playbook

open Hierarchy

variable {σ : Type} {e : Engine σ} {caller : Caller} {w w' : World σ}

/-! ## What is restored -/

/-- A hierarchy in which a call was undone, seen from the hierarchy before the call. -/
structure Hierarchy.Restored (h h' : Hierarchy) : Prop where
  active : h'.active = h.active
  /-- What was there is there with its place, and open if it was. -/
  kept : ∀ id t, h.get? id = some t → ∃ t', h'.get? id = some t' ∧ t'.status = t.status ∧
    t'.chronicle = t.chronicle ∧ t'.parent = t.parent
  /-- What was created is closed. -/
  created_closed : ∀ id t', h.get? id = none → h'.get? id = some t' →
    t'.status = .completed ∨ t'.status = .aborted

/-- A hierarchy that has grown is restored when its old active thread is active again. -/
theorem Hierarchy.Restored.of_grows {h h' : Hierarchy} (ho : OpenPath h) (ho' : OpenPath h')
    (hgrows : h.Grows h') (hactive : h'.active = h.active) : Restored h h' := by
  have hline : h'.lineage h'.active = h.lineage h.active := by
    rw [hactive]
    exact hgrows.lineage_eq ho.toIsTree ho'.toIsTree ho.active_ne_none
  refine ⟨hactive, ?_, ?_⟩
  · intro id t hg
    rcases hgrows.thread hg with ⟨t', hg', hgrow⟩
    have hstatus : t'.status = t.status := by
      by_cases hact : t.status = .active
      · -- what is on the way to the active thread has stayed open
        have hmem := (ho.active_iff hg).1 hact
        rw [hact]
        exact (ho'.active_iff hg').2 (hline ▸ hmem)
      · exact hgrow.closed hact
    exact ⟨t', hg', hstatus, hgrow.kept hstatus, hgrow.parent⟩
  · intro id t' hnone hg'
    cases hs : t'.status with
    | active =>
      -- an open thread is on the way to the active one, so it was there before
      have hmem := (ho'.active_iff hg').1 hs
      rw [hline] at hmem
      obtain ⟨t, hg⟩ := ho.get?_of_mem_lineage hmem
      rw [hnone] at hg
      cases hg
    | completed => exact Or.inl rfl
    | aborted => exact Or.inr rfl

/-- The state of a walk that has gone on after a failure: only the message of the error is new. -/
structure Frame.Recovers (cause : Error) (f f' : Frame) : Prop where
  error : f'.region.get? errorKey = some (.str cause.message)
  region : ∀ key, key ≠ errorKey → f'.region.get? key = f.region.get? key
  outputs : f'.outputs = f.outputs
  thread : f'.thread = f.thread
  sessions : f'.sessions = f.sessions

/-- The message of an error can always be written. -/
theorem Frame.write_error (f : Frame) (cause : Error) :
    ∃ f', f.write errorKey (.str cause.message) = .ok f' ∧ f.Recovers cause f' := by
  have hkey : isReserved errorKey = false := by decide
  refine ⟨{ f with region := ⟨f.region.values.insert errorKey (.str cause.message)⟩ }, ?_, ?_⟩
  · rw [write, Region.insert_eq_ok hkey]
    rfl
  · refine ⟨Dict.get?_insert_self _ _ _, ?_, rfl, rfl, rfl⟩
    intro key hne
    show (f.region.values.insert errorKey (.str cause.message)).get? key = f.region.get? key
    rw [Dict.get?_insert, if_neg hne]
    rfl

/-- So can that of a rejected operation. -/
theorem Engine.exists_reject (caller : Caller) (node : Node) (cause : Error) (f : Frame) (w : World σ) :
    ∃ f', reject caller node cause f w =
        (.ok f', { w with events := w.events ++ [⟨caller.agent.id, .operationRejected node.id cause.message⟩] }) ∧
      f.Recovers cause f' := by
  rcases f.write_error cause with ⟨f', hwrite, hrecovers⟩
  refine ⟨f', ?_, hrecovers⟩
  rw [reject, hwrite]
  rfl

namespace Engine

variable {node : Node} {level : Level σ} {f : Frame} {c : Call} {cause : Error}

/-- A failure that leads to a node is tolerated. -/
theorem invoke_of_error {target : String} (htarget : c.onFailure = some target)
    (hfail : e.call caller node c level f w = (.error cause, w')) :
    ∃ f', e.invoke caller node c level f w = (.ok (.branch target, f'), w') ∧ f.Recovers cause f' := by
  rcases f.write_error cause with ⟨f', hwrite, hrecovers⟩
  refine ⟨f', ?_, hrecovers⟩
  simp only [invoke, htarget]
  rw [Exec.bind_run]
  simp only [Exec.attempt, hfail]
  rw [hwrite]
  rfl

/-- In every run, where a call fails and its node says where to go then, the walk goes there in the state
before the call, with the message of the error under its key. What was used and noted stays, the old
active thread is active, all threads are as open or closed as they were, and the new ones are closed. -/
theorem restored_of_run (hinj : Function.Injective e.supply) (hw : Settled e w) {name : String}
    {args : Dict Json} {p : Standing σ} (hv : e.Visited caller name args w p)
    (hdisp : p.Dispatches e node) (hkind : node.kind = .invoke c) {target : String}
    (htarget : c.onFailure = some target)
    (hfail : e.call caller node c (e.level caller p.calls) p.frame (p.announced caller node) =
      (.error cause, w')) :
    ∃ f', p.outcome e caller node = (.ok (.branch target, f'), w') ∧
      p.rest e caller = (p.onward e caller node f' target w').rest e caller ∧
      p.frame.Recovers cause f' ∧
      (p.world.usage.input ≤ w'.usage.input ∧ p.world.usage.output ≤ w'.usage.output) ∧
      p.world.trace <+: w'.trace ∧
      p.world.hierarchy.Restored w'.hierarchy := by
  have hu : Upright e w.hierarchy p := upright_of_run hinj hw hv
  rcases hu.registered with ⟨_, hd⟩
  rcases invoke_of_error htarget hfail with ⟨f', hinvoke, hrecovers⟩
  have hx : p.outcome e caller node = (.ok (.branch target, f'), w') := by
    simp only [Standing.outcome, dispatch, hkind]
    exact hinvoke
  have hannounced : Settled e (p.announced caller node) :=
    World.settled_announced hu.settled caller.agent.id p.playbook node p.made
  -- however the call has failed, the walk stands where it stood
  have hends : Exec.Ends (e.call caller node c (e.level caller p.calls) p.frame)
      (p.announced caller node) _ _ :=
    (call_ends hinj (tolerates_all e)
      (calleesStand_level hinj (tolerates_all e) (nodesOk_all e) hu.calls_le) (calleesAct_level p.calls)
      (nodesOk_all e hd hdisp.node_eq) hannounced hu.stands hkind).settled hinj hannounced
      (acts_call (fun _ _ => trivial) (calleesAct_level p.calls) c)
  rw [Exec.ends_of_error hfail] at hends
  rcases hends with ⟨⟨hw', hgrows⟩, _, hstands⟩
  have hactive : w'.hierarchy.active = p.world.hierarchy.active :=
    hstands.thread.symm.trans hu.stands.thread
  have hdeeds : Deeds e caller.agent.id .any (p.announced caller node)
      (p.outcome e caller node).2 :=
    Standing.outcome_does hdisp trivial fun q _ _ => q.rest_does fun _ _ _ _ => ⟨trivial, trivial⟩
  rw [hx] at hdeeds
  refine ⟨f', hx, ?_, hrecovers, hdeeds.usage_le, ?_, ?_⟩
  · rw [Standing.rest_of_dispatches hdisp, hx]
    rfl
  · rcases hdeeds.trace_grows with ⟨added, htrace, _⟩
    exact ⟨added, htrace.symm⟩
  · exact .of_grows hu.stands.openPath hw'.openPath hgrows hactive

end Engine

/-- The start of the hike, where the climb fails. -/
def Tour.foot : Standing Unit :=
  .start Tour.engine.config.engine.maxCallDepth Tour.hike .empty Outing.world.hierarchy.active
    (Outing.world.begun "agent" Tour.hike)

/-- After the slip the hike goes home, in the session in which it was. -/
theorem Tour.climb_restored :
    ∃ f' w', Tour.foot.outcome Tour.engine Outing.traveller Tour.climb = (.ok (.branch "home", f'), w') ∧
      Tour.foot.frame.Recovers (.toolNotFound "lamp") f' ∧
      Tour.foot.world.hierarchy.Restored w'.hierarchy := by
  have hv : Tour.engine.Visited Outing.traveller "hike" .empty Outing.world Tour.foot :=
    ⟨Tour.hike, .empty, rfl, .refl⟩
  have hdisp : Tour.foot.Dispatches Tour.engine Tour.climb := ⟨rfl, by decide, rfl⟩
  -- the model answers, and then there is no lamp
  have hcause : (Tour.engine.call Outing.traveller Tour.climb Tour.slippery
      (Tour.engine.level Outing.traveller Tour.foot.calls) Tour.foot.frame
      (Tour.foot.announced Outing.traveller Tour.climb)).1 = .error (.toolNotFound "lamp") := by
    decide +kernel
  rcases hcall : Tour.engine.call Outing.traveller Tour.climb Tour.slippery
    (Tour.engine.level Outing.traveller Tour.foot.calls) Tour.foot.frame
    (Tour.foot.announced Outing.traveller Tour.climb) with ⟨r, w'⟩
  rw [hcall] at hcause
  cases hcause
  rcases Engine.restored_of_run unary_injective Tour.settled hv hdisp rfl rfl hcall with
    ⟨f', hx, _, hrecovers, _, _, hrestored⟩
  exact ⟨f', w', hx, hrecovers, hrestored⟩

end Playbook
