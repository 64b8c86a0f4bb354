import Playbook.Proofs.Run.Effects
import Playbook.Proofs.Schema

/-! # After a failed or cancelled run

Whatever a run has done to the sessions before it failed or was cancelled, its sessions are aborted at the
end. What is still open then was open before, on the way to the primary session or a proper ancestor of the
thread in which the run started.

Main statements: `Engine.run_ends` says what becomes of a run in every case, and `Engine.cleanedUp_of_run`
what a run that has failed or was cancelled leaves behind.
-/

namespace Playbook

open Hierarchy

variable {σ : Type} {e : Engine σ} {caller : Caller} {w : World σ}

/-- A hierarchy in which a run was cleaned up, seen from the hierarchy in which it started. -/
structure CleanedUp (h h' : Hierarchy) : Prop where
  /-- Every thread that the run created is closed. -/
  created_closed : ∀ id t', h.get? id = none → h'.get? id = some t' →
    t'.status = .completed ∨ t'.status = .aborted
  /-- The thread in which the run started is closed, unless it is the primary session. -/
  mark_closed : h.active ≠ h.root → ∀ t', h'.get? h.active = some t' → t'.status ≠ .active
  /-- The primary session or a proper ancestor of the thread in which the run started is active. -/
  active_above : h'.active = h.root ∨ (h'.active ≠ h.active ∧ h'.active ∈ h.lineage h.active)
  /-- What is open now was open before and is on the way to the active thread. -/
  open_before : ∀ id t', h'.get? id = some t' → t'.status = .active →
    (∃ t, h.get? id = some t ∧ t.status = .active) ∧ t' ∈ h'.pathTo h'.active
  /-- What was closed before stays as it was. -/
  closed_kept : ∀ id t, h.get? id = some t → t.status ≠ .active →
    ∃ t', h'.get? id = some t' ∧ t'.status = t.status ∧ t'.chronicle = t.chronicle
  /-- What the run aborted has no chronicle. -/
  aborted_silent : ∀ id t', h'.get? id = some t' → t'.status = .aborted →
    (∀ t, h.get? id = some t → t.status ≠ .aborted) → t'.chronicle = none

/-- However a hierarchy has grown, aborting the run cleans it up. -/
theorem CleanedUp.of_abortRun {h mid h' : Hierarchy} {now : Time} {ids : List ThreadId}
    (ho : OpenPath h) (hm : OpenPath mid) (hgrows : h.Grows mid)
    (ha : mid.abortRun h.active now = .ok (h', ids)) : CleanedUp h h' := by
  have hmark : mid.get? h.active ≠ none := hgrows.isSome ho.active_ne_none
  rcases hm.abortRun_active hmark now with ⟨h'', ids', hok, hactive, hproper⟩
  rw [ha] at hok
  cases hok
  have hsteady := hm.abortRun ha
  have hall : h.Grows h' := hgrows.trans hsteady.grows
  have ho' : OpenPath h' := hsteady.openPath
  -- the lineage of the thread in which the run started has not changed since
  have hmid : mid.lineage h.active = h.lineage h.active :=
    hgrows.lineage_eq ho.toIsTree hm.toIsTree ho.active_ne_none
  have hline : h'.lineage h.active = h.lineage h.active :=
    hall.lineage_eq ho.toIsTree ho'.toIsTree ho.active_ne_none
  have hroot : mid.root = h.root := hgrows.root
  rw [hmid] at hactive
  rw [hroot] at hproper
  -- what is open afterwards is on the way to the thread in which the run started
  have hopen : ∀ {id t'}, h'.get? id = some t' → t'.status = .active →
      id ∈ h.lineage h.active := fun {id t'} hg' hs => by
    have hon := (ho'.active_iff hg').1 hs
    rw [← hline] at hactive ⊢
    exact (ho'.lineage_isPrefix hactive).subset hon
  refine { created_closed := ?_, mark_closed := ?_, active_above := ?_, open_before := ?_,
           closed_kept := ?_, aborted_silent := ?_ }
  · intro id t' hnone hg'
    cases hs : t'.status with
    | active =>
      obtain ⟨t, hg⟩ := ho.get?_of_mem_lineage (hopen hg' hs)
      rw [hnone] at hg
      cases hg
    | completed => exact Or.inl rfl
    | aborted => exact Or.inr rfl
  · intro hne t' hg' hs
    -- an open thread in which the run started would be below the active one and above it
    have hon := (ho'.active_iff hg').1 hs
    rw [← hline] at hactive
    have heq := ho'.eq_of_mem_lineage hactive hon
    rcases hproper with hact | hact
    · exact hne (heq.symm.trans hact)
    · exact hact heq
  · exact hproper.imp_right fun hne => ⟨hne, hactive⟩
  · intro id t' hg' hs
    obtain ⟨t, hg⟩ := ho.get?_of_mem_lineage (hopen hg' hs)
    constructor
    · exact ⟨t, hg, (ho.active_iff hg).2 (hopen hg' hs)⟩
    · exact (ho'.mem_pathTo_iff hg').2 ((ho'.active_iff hg').1 hs)
  · intro id t hg hs
    rcases hall.thread hg with ⟨t', hg', hgrow⟩
    have hkept := hgrow.closed hs
    exact ⟨t', hg', hkept, hgrow.kept hkept⟩
  · intro id t' hg' hs hbefore
    cases hg : h.get? id with
    | none => exact hall.born hg hg' hs
    | some t =>
      have hgrow := hall.thread' hg hg'
      by_cases hact : t.status = .active
      · exact hgrow.aborted hact hs
      · exact absurd ((hgrow.closed hact).symm.trans hs) (hbefore t hg)

namespace Engine

/-- What is left of the sessions when a run has failed or was cancelled: it was aborted in a hierarchy that
had grown from the one in which it started. -/
def Aborted (e : Engine σ) (h h' : Hierarchy) : Prop :=
  ∃ mid ids, OpenPath mid ∧ h.Grows mid ∧ mid.abortRun h.active e.now = .ok (h', ids)

/-- Until a run cleans up, the hierarchy only grows. -/
theorem start_settled (hinj : Function.Injective e.supply) (hs : Settled e w) (caller : Caller)
    (name : String) (args : Dict Json) :
    Settled e (e.start caller name args w.hierarchy.active w).2 ∧
      w.hierarchy.Grows (e.start caller name args w.hierarchy.active w).2.hierarchy := by
  have hacts : Acts e Any (e.start caller name args w.hierarchy.active) := acts_start name args _
  exact (hacts w).settled hinj hs

/-- So its sessions can be aborted then, whatever has become of them. -/
theorem exists_abortRun (hinj : Function.Injective e.supply) (hs : Settled e w) (caller : Caller)
    (name : String) (args : Dict Json) :
    ∃ h ids, (e.start caller name args w.hierarchy.active w).2.hierarchy.abortRun w.hierarchy.active
      e.now = .ok (h, ids) := by
  rcases start_settled hinj hs caller name args with ⟨hs₁, hgrows⟩
  have hmark := hgrows.isSome hs.openPath.active_ne_none
  rcases hs₁.openPath.abortRun_active hmark e.now with ⟨h, ids, hok, _⟩
  exact ⟨h, ids, hok⟩

/-- A run hands back what becomes of its walk. If the walk fails or is cancelled, binding failures
included, the run aborts its sessions. -/
theorem run_ends (hinj : Function.Injective e.supply) (hs : Settled e w) (name : String)
    (args : Dict Json) :
    Exec.Ends (e.run caller name args) w
      (fun o w' => ∃ done w₁, e.start caller name args w.hierarchy.active w = (.ok done, w₁) ∧
        ((done.cancelled = false ∧ o.status = .completed ∧ o.frame = done.frame ∧
            w'.hierarchy = w₁.hierarchy) ∨
          (o.status = .cancelled ∧ e.Aborted w.hierarchy w'.hierarchy ∧
            o.frame.thread = w'.hierarchy.active)))
      (fun cause w' => e.Aborted w.hierarchy w'.hierarchy ∧
        ∃ w₁, e.start caller name args w.hierarchy.active w = (.error cause, w₁)) := by
  have hstart := start_settled hinj hs caller name args
  -- however the walk ends, what it has left open can be aborted
  have habort := exists_abortRun hinj hs caller name args
  rcases hx : e.start caller name args w.hierarchy.active w with ⟨r, w₁⟩
  rw [hx] at hstart habort
  rcases hstart with ⟨hs₁, hgrows⟩
  rcases habort with ⟨h', ids, hok⟩
  simp only at hok
  have haborted : e.Aborted w.hierarchy h' := ⟨w₁.hierarchy, ids, hs₁.openPath, hgrows, hok⟩
  simp only [run]
  rw [Exec.ends_bind, Exec.ends_look, Exec.ends_bind, Exec.ends_attempt]
  cases r with
  | ok done =>
    rw [Exec.ends_of_ok hx]
    cases hc : done.cancelled with
    | true =>
      simp only [hc, if_true]
      rw [Exec.ends_bind, Exec.ends_aborting, hok]
      exact ⟨done, w₁, rfl, Or.inr ⟨rfl, haborted, rfl⟩⟩
    | false =>
      simp only [hc]
      exact ⟨done, w₁, rfl, Or.inl ⟨hc, rfl, rfl, rfl⟩⟩
  | error cause =>
    rw [Exec.ends_of_error hx]
    simp only
    rw [Exec.ends_bind, Exec.ends_attempt, Exec.ends_aborting, hok]
    exact ⟨haborted, w₁, rfl⟩

/-- A run that starts in a hierarchy whose open threads are a path, and that returns an error or is
cancelled, leaves it cleaned up; the state that a cancelled run hands back is in the active thread. -/
theorem cleanedUp_of_run (hinj : Function.Injective e.supply) (hs : Settled e w) (name : String)
    (args : Dict Json) {result : Except Error Outcome} {w' : World σ}
    (hrun : e.run caller name args w = (result, w'))
    (hend : ∀ o, result = .ok o → o.status = .cancelled) :
    CleanedUp w.hierarchy w'.hierarchy ∧
      ∀ o, result = .ok o → o.frame.thread = w'.hierarchy.active := by
  have hends : Exec.Ends (e.run caller name args) w _ _ := run_ends hinj hs name args
  cases result with
  | ok o =>
    rw [Exec.ends_of_ok hrun] at hends
    rcases hends with ⟨done, w₁, _, ⟨_, hcompleted, _⟩ | ⟨_, ⟨mid, ids, hm, hgrows, ha⟩, hthread⟩⟩
    · rw [hend o rfl] at hcompleted
      cases hcompleted
    · refine ⟨.of_abortRun hs.openPath hm hgrows ha, ?_⟩
      intro o' ho'
      cases ho'
      exact hthread
  | error cause =>
    rw [Exec.ends_of_error hrun] at hends
    rcases hends with ⟨⟨mid, ids, hm, hgrows, ha⟩, _⟩
    exact ⟨.of_abortRun hs.openPath hm hgrows ha, fun o ho => nomatch ho⟩

end Engine

/-! ## An outing that fails -/

namespace Outing

/-- A host that is out of reach. -/
def host : Host Unit where
  generate := fun _ _ => ⟨.error (.modelRequest "unreachable"), false, ()⟩
  useTool := fun _ _ name _ => ⟨.error (.toolNotFound name), false, ()⟩
  append := fun _ _ => ⟨.error (.memory "unreachable"), false, ()⟩
  recollect := fun _ _ _ => ⟨.error (.memory "unreachable"), false, ()⟩
  deliver := fun _ _ _ => ⟨.error (.surface "unreachable"), false, ()⟩
  interrupts := fun _ _ => false
  keep := fun _ _ => (.error (.database "unreachable"), ())

/-- Enters a session and uses a tool there. -/
def visit : Definition where
  graph := ⟨"visit", none, "enter", [],
    [⟨"enter", .enterSession ⟨none, none⟩, some "look", []⟩,
      ⟨"look", .invokeTool ⟨"lamp", .empty, "seen"⟩, none, []⟩]⟩
  sound := ⟨Schema.truthValues, by decide⟩

/-- Enters a session and calls the visit in another one. -/
def outing : Definition where
  graph := ⟨"outing", none, "enter", [],
    [⟨"enter", .enterSession ⟨none, none⟩, some "call", []⟩,
      ⟨"call", .invoke ⟨"visit", .empty, .isolated, false, none, none, none, false⟩, none, []⟩]⟩
  sound := ⟨Schema.truthValues, by decide⟩

def engine : Engine Unit where
  playbooks := (Registry.ofDefinitions [visit, outing]).toOption.getD .empty
  config := .default
  host := host
  schemas := Schema.truthValues
  tokens := String.length
  supply := unary
  now := default

def traveller : Caller := ⟨⟨"agent", "Agent", none⟩, [], .empty, false⟩

/-- A hierarchy in which an earlier run has left a session open. -/
def hierarchy : Numbered :=
  (Numbered.start unary "agent" 100 { Limits.default with maxDepth := 5 } default).run unary
    [.enter none none default]

def world : World Unit := .start () hierarchy.hierarchy hierarchy.drawn false

theorem playbooks_eq : Registry.ofDefinitions [visit, outing] = .ok engine.playbooks := rfl

theorem settled : Settled engine world :=
  .of_reachable unary_injective ⟨"agent", 100, default, _, rfl⟩ () false

end Outing

theorem Outing.run_cleanedUp :
    ∃ w', Outing.engine.run Outing.traveller "outing" .empty Outing.world =
        (.error (.toolNotFound "lamp"), w') ∧
      CleanedUp Outing.world.hierarchy w'.hierarchy := by
  have hrun : Outing.engine.run Outing.traveller "outing" .empty Outing.world =
      (.error (.toolNotFound "lamp"),
        (Outing.engine.run Outing.traveller "outing" .empty Outing.world).2) := rfl
  exact ⟨_, hrun, (Engine.cleanedUp_of_run unary_injective Outing.settled "outing" .empty hrun
    fun o ho => nomatch ho).1⟩

end Playbook
