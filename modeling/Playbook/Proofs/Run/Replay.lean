import Playbook.Proofs.Run.Cleanup
import Playbook.Proofs.Run.Deeds

/-! # The log tells what has become of the threads

The events of a run tell of every thread what has become of it: that it was entered, with its depth and
its budget, if the run has created it, and then that it was completed or aborted, if that has happened in
the run. Nothing is told twice, and of no other thread anything is told.

Main statements: `Deed.replays` says so of one deed, `Deeds.replays` of any number of them, and
`Engine.replays_of_run` of every run, with the events that begin and end it.
-/

namespace Playbook

open Hierarchy
open Relation (ReflTransGen)

variable {σ : Type} {e : Engine σ} {agent : String} {S : Scope} {w w' : World σ} {h h' h'' : Hierarchy}

/-! ## What there is to tell -/

/-- Whether this tells of a thread. -/
def Happening.isAbout (id : ThreadId) : Happening → Bool
  | .threadEntered thread _ _ => thread == id
  | .threadCompleted thread _ => thread == id
  | .threadAborted thread => thread == id
  | _ => false

/-- What is told of a thread, in order. -/
def story (id : ThreadId) (whats : List Happening) : List Happening :=
  whats.filter (Happening.isAbout id)

/-- How a thread was closed; nothing if it is open. -/
def Thread.closing (t : Thread) : List Happening :=
  match t.status with
  | .active => []
  | .completed => [.threadCompleted t.id t.chronicle.isSome]
  | .aborted => [.threadAborted t.id]

/-- What has become of a thread between two hierarchies. A thread that was closed before has no more to
tell. -/
def Hierarchy.tale (h h' : Hierarchy) (id : ThreadId) : List Happening :=
  match h'.get? id with
  | none => []
  | some t' =>
    match h.get? id with
    | none => .threadEntered id t'.depth t'.budget :: t'.closing
    | some t => if t.status = .active then t'.closing else []

@[simp] theorem story_append (id : ThreadId) (l l' : List Happening) :
    story id (l ++ l') = story id l ++ story id l' :=
  List.filter_append l l'

/-- When sessions are aborted each of them is told of once. -/
theorem story_aborted {ids : List ThreadId} (hnd : ids.Nodup) (id : ThreadId) :
    story id (ids.map .threadAborted) = if id ∈ ids then [.threadAborted id] else [] := by
  have hfun : Happening.isAbout id ∘ Happening.threadAborted = fun x => x == id := rfl
  rw [story, List.filter_map, hfun, List.filter_beq]
  by_cases hmem : id ∈ ids
  · rw [if_pos hmem, List.count_eq_one_of_mem hnd hmem]
    rfl
  · rw [if_neg hmem, List.count_eq_zero_of_not_mem hmem]
    rfl

/-! ## Tales go on -/

namespace Hierarchy

theorem tale_of_none {id : ThreadId} (hg' : h'.get? id = none) : h.tale h' id = [] := by
  rw [tale, hg']

/-- Of a new thread all is told. -/
theorem tale_of_new {id : ThreadId} {t' : Thread} (hg : h.get? id = none) (hg' : h'.get? id = some t') :
    h.tale h' id = .threadEntered id t'.depth t'.budget :: t'.closing := by
  rw [tale, hg', hg]

/-- Of an old one how it was closed, if it was open. -/
theorem tale_of_old {id : ThreadId} {t t' : Thread} (hg : h.get? id = some t)
    (hg' : h'.get? id = some t') : h.tale h' id = if t.status = .active then t'.closing else [] := by
  rw [tale, hg', hg]

/-- A thread that keeps its status has nothing to tell. -/
theorem tale_of_kept {id : ThreadId} {t t' : Thread} (hg : h.get? id = some t)
    (hg' : h'.get? id = some t') (hs : t'.status = t.status) : h.tale h' id = [] := by
  rw [tale_of_old hg hg']
  by_cases hact : t.status = .active
  · rw [if_pos hact, Thread.closing, hs, hact]
  · rw [if_neg hact]

/-- Where nothing changes there is nothing to tell. -/
@[simp] theorem tale_self (h : Hierarchy) (id : ThreadId) : h.tale h id = [] := by
  cases hg : h.get? id with
  | none => exact tale_of_none hg
  | some t => exact tale_of_kept hg hg rfl

end Hierarchy

/-- How a thread was closed by the end was told before, or it is told now. -/
theorem Thread.Grows.closing_append {t t' : Thread} (hg : t.Grows t') :
    t.closing ++ (if t.status = .active then t'.closing else []) = t'.closing := by
  by_cases hact : t.status = .active
  · have hnil : t.closing = [] := by rw [Thread.closing, hact]
    rw [if_pos hact, hnil, List.nil_append]
  · have hs := hg.closed hact
    rw [if_neg hact, List.append_nil, Thread.closing, Thread.closing, hs, hg.kept hs, hg.id]

/-- A tale is told in parts. -/
theorem Hierarchy.Grows.tale_append (a : h.Grows h') (b : h'.Grows h'') (id : ThreadId) :
    h.tale h' id ++ h'.tale h'' id = h.tale h'' id := by
  cases hg' : h'.get? id with
  | none =>
    -- the thread comes later, so it was not there at the beginning either
    have hnone : h.get? id = none := by
      by_contra hne
      exact a.isSome hne hg'
    rw [tale_of_none hg', List.nil_append]
    cases hg'' : h''.get? id with
    | none => rw [tale_of_none hg'', tale_of_none hg'']
    | some t'' => rw [tale_of_new hg' hg'', tale_of_new hnone hg'']
  | some t' =>
    rcases b.thread hg' with ⟨t'', hg'', hgrow⟩
    rw [tale_of_old hg' hg'']
    cases hg : h.get? id with
    | none =>
      rw [tale_of_new hg hg', tale_of_new hg hg'', List.cons_append, hgrow.closing_append, hgrow.depth,
        hgrow.budget]
    | some t =>
      rw [tale_of_old hg hg', tale_of_old hg hg'']
      by_cases hact : t.status = .active
      · rw [if_pos hact, if_pos hact, hgrow.closing_append]
      · -- what was closed at the beginning has been closed ever since
        have hclosed : t'.status ≠ .active := (a.thread' hg hg').closed hact ▸ hact
        rw [if_neg hact, if_neg hact, if_neg hclosed, List.nil_append]

/-! ## Deeds -/

/-- From one world to the other the log tells what has become of the threads, and ends no run. -/
def Replays (agent : String) (w w' : World σ) : Prop :=
  ∃ whats, w'.events = (w.told agent whats).events ∧
    (∀ id, story id whats = w.hierarchy.tale w'.hierarchy id) ∧
    ∀ what ∈ whats, what.isTerminal = false

namespace Replays

/-- Where the log stays as it is, nothing has become of a thread. -/
theorem of_silent (hev : w'.events = w.events) (htale : ∀ id, w.hierarchy.tale w'.hierarchy id = []) :
    Replays agent w w' := by
  refine ⟨[], ?_, fun id => (htale id).symm, fun _ hmem => absurd hmem List.not_mem_nil⟩
  rw [hev, World.told, List.map_nil, List.append_nil]

theorem refl (w : World σ) : Replays agent w w := .of_silent rfl fun id => tale_self w.hierarchy id

theorem trans {w'' : World σ} (hgrows : w.hierarchy.Grows w'.hierarchy)
    (hgrows' : w'.hierarchy.Grows w''.hierarchy) (a : Replays agent w w')
    (b : Replays agent w' w'') : Replays agent w w'' := by
  rcases a with ⟨xs, hxs, htale, hterm⟩
  rcases b with ⟨ys, hys, htale', hterm'⟩
  refine ⟨xs ++ ys, ?_, fun id => ?_, fun what hmem => ?_⟩
  · simp only [World.told] at hxs hys ⊢
    rw [hys, hxs, List.map_append, List.append_assoc]
  · rw [story_append, htale, htale', hgrows.tale_append hgrows']
  · rcases List.mem_append.1 hmem with hmem | hmem
    · exact hterm what hmem
    · exact hterm' what hmem

/-- Where the hierarchy stays as it is, the event may not be about a thread. -/
theorem of_quiet (what : Happening) (hev : w'.events = (w.told agent [what]).events)
    (hsame : w'.hierarchy = w.hierarchy)
    (hquiet : what.isTerminal = false ∧ ∀ id, what.isAbout id = false) : Replays agent w w' := by
  refine ⟨[what], hev, fun id => ?_, fun x hmem => ?_⟩
  · rw [hsame, tale_self, story, List.filter_cons, hquiet.2 id]
    rfl
  · rw [List.mem_singleton.1 hmem]
    exact hquiet.1

end Replays

theorem Happening.quiet_of_isNote {what : Happening} (hn : what.isNote = true) :
    what.isTerminal = false ∧ ∀ id, what.isAbout id = false := by
  cases what with
  | nodeStarted => exact ⟨rfl, fun _ => rfl⟩
  | operationRejected => exact ⟨rfl, fun _ => rfl⟩
  | _ => cases hn

/-- A thread that is entered is told of, and it is the only one of which there is something to tell. -/
theorem Hierarchy.Enters.tale_eq {id : ThreadId} {p : Thread} {ratio : Double} {label : Option String}
    {now : Time} (hfresh : h.get? id = none)
    (he : Enters h h' id p (Thread.nested id p ratio label now)) {t : Thread}
    (ht : h'.get? id = some t) (x : ThreadId) :
    h.tale h' x = story x [.threadEntered id t.depth t.budget] := by
  -- only the new thread has something to tell, namely that it was entered
  by_cases hx : x = id
  · subst hx
    have hnew := ht
    rw [he.get?_new] at hnew
    have hclosing : t.closing = [] := by
      cases hnew
      rfl
    rw [tale_of_new hfresh ht, hclosing]
    simp [story, Happening.isAbout]
  · have hstory : story x [Happening.threadEntered id t.depth t.budget] = [] := by
      simp [story, Happening.isAbout, Ne.symm hx]
    rw [hstory]
    have hold := he.get?_old hx
    cases hg : h.get? x with
    | none =>
      rw [hg] at hold
      exact tale_of_none hold
    | some u =>
      rw [hg, Option.map_some] at hold
      refine tale_of_kept hg hold ?_
      split <;> rfl

/-- When the active session is left, there is something to tell of it alone. -/
theorem Hierarchy.OpenPath.leave_tale_eq (ho : OpenPath h) {id : ThreadId} {chronicle : Option String}
    {now : Time} (hl : h.leave id chronicle now = .ok h') (x : ThreadId) :
    h.tale h' x = story x [.threadCompleted id chronicle.isSome] := by
  rcases leave_maps hl with ⟨hid, t, p, hg, _, hm⟩
  have hgx := hm.get? x
  by_cases hx : x = id
  · subst hx
    -- it was open before, so it tells how it was closed
    have hact : t.status = .active := ho.status_active (hid ▸ hg)
    rw [hg, Option.map_some, if_pos rfl] at hgx
    rw [tale_of_old hg hgx, if_pos hact]
    simp [Thread.closing, Thread.close, story, Happening.isAbout, ho.id_eq hg]
  · have hstory : story x [Happening.threadCompleted id chronicle.isSome] = [] := by
      simp [story, Happening.isAbout, Ne.symm hx]
    rw [hstory]
    cases hu : h.get? x with
    | none =>
      rw [hu] at hgx
      exact tale_of_none hgx
    | some u =>
      rw [hu, Option.map_some, if_neg hx] at hgx
      exact tale_of_kept hu hgx rfl

/-- When sessions are aborted, there is something to tell of them alone. -/
theorem Hierarchy.OpenPath.abort_tale_eq (ho : OpenPath h) {id : ThreadId} {now : Time}
    {ids : List ThreadId} (ha : h.abort id now = .ok (h', ids)) (x : ThreadId) :
    h.tale h' x = story x (ids.map .threadAborted) := by
  rcases abort_ok ha with ⟨t, p, hg, hp⟩
  rcases abort_eq hg hp now with ⟨h'', hok, hm⟩
  rw [ha] at hok
  cases hok
  rw [story_aborted (openWithin_nodup ho.toIsTree id)]
  have hgx := hm.get? x
  cases hu : h.get? x with
  | none =>
    have hnot : x ∉ h.openWithin id := fun hmem => by
      rcases (mem_openWithin ho.toIsTree).1 hmem with ⟨u, hu', _⟩
      rw [hu] at hu'
      cases hu'
    rw [hu] at hgx
    rw [tale_of_none hgx, if_neg hnot]
  | some u =>
    rw [hu, Option.map_some] at hgx
    -- those that were open beneath the session tell that they were aborted
    by_cases hmem : x ∈ h.openWithin id
    · have hact := ((ho.mem_openWithin_iff hu).1 hmem).1
      rw [if_pos hmem] at hgx
      rw [if_pos hmem, tale_of_old hu hgx, if_pos hact]
      simp [Thread.closing, Thread.close, ho.id_eq hu]
    · rw [if_neg hmem] at hgx
      rw [if_neg hmem]
      exact tale_of_kept hu hgx rfl

/-- Every deed is told of in the log. -/
theorem Deed.replays (hs : Settled e w) (hd : Deed e agent S w w') : Replays agent w w' := by
  cases hd with
  | consulted host cancels i hu hd => exact .of_silent rfl fun id => tale_self w.hierarchy id
  | polled => exact .of_silent rfl fun id => tale_self w.hierarchy id
  | answered host cancels request g => exact .of_quiet (.usageUpdate g.usage) rfl rfl ⟨rfl, fun _ => rfl⟩
  | noted what hn => exact .of_quiet what rfl rfl (what.quiet_of_isNote hn)
  | dispatched t hS => exact .of_quiet (.nodeCompleted t.node) rfl rfl ⟨rfl, fun _ => rfl⟩
  | recorded host cancels thread content h hS hr =>
    refine .of_silent rfl ?_
    intro id
    -- a message changes the status of no thread
    have hm := (recordIn_maps hr).get? id
    cases hg : w.hierarchy.get? id with
    | none =>
      rw [hg] at hm
      exact tale_of_none hm
    | some t =>
      rw [hg, Option.map_some] at hm
      refine tale_of_kept hg hm ?_
      split <;> rfl
  | delivered host cancels node content hS => exact .of_quiet (.emitted content) rfl rfl ⟨rfl, fun _ => rfl⟩
  | entered ratio label h t he ht =>
    have hfresh := hs.fresh w.drawn (Nat.le_refl _)
    rcases enter_ok hs.openPath.toIsTree hs.openPath.active_ne_none he with ⟨p, hent⟩
    refine ⟨[.threadEntered (e.supply w.drawn) t.depth t.budget], rfl, ?_, ?_⟩
    · intro id
      exact (hent.tale_eq hfresh ht id).symm
    · intro what hmem
      rw [List.mem_singleton.1 hmem]
      rfl
  | left id chronicle h hl =>
    refine ⟨[.threadCompleted id chronicle.isSome], rfl, ?_, ?_⟩
    · intro x
      exact (hs.openPath.leave_tale_eq hl x).symm
    · intro what hmem
      rw [List.mem_singleton.1 hmem]
      rfl
  | aborted id h ids ha =>
    refine ⟨ids.map .threadAborted, rfl, ?_, ?_⟩
    · intro x
      exact (hs.openPath.abort_tale_eq ha x).symm
    · intro what hmem
      rcases List.mem_map.1 hmem with ⟨x, _, rfl⟩
      rfl

/-- So is everything that is done from a settled world on. -/
theorem Deeds.replays (hinj : Function.Injective e.supply) (hs : Settled e w)
    (hd : Deeds e agent S w w') : Replays agent w w' := by
  induction hd with
  | refl => exact .refl _
  | tail hfirst hlast ih =>
    rcases Deeds.settled hinj hs hfirst with ⟨hmid, hgrows⟩
    have hgrows' := (hlast.settled hinj hmid).2
    exact .trans hgrows hgrows' ih (hlast.replays hmid)

/-! ## Runs -/

namespace Engine

variable {caller : Caller} {name : String} {args : Dict Json}

/-- The log of a run tells what has become of every thread, whatever the outcome. It begins with the start
of the run if its arguments could be bound, and ends with the only event that ends a run. -/
theorem replays_of_run (hinj : Function.Injective e.supply) (hs : Settled e w) (caller : Caller)
    (name : String) (args : Dict Json) {r : Except Error Outcome}
    (hrun : e.run caller name args w = (r, w')) :
    ∃ whats, w'.events = w.events ++ whats.map (fun what => ⟨caller.agent.id, what⟩) ∧
      (∀ id, story id whats = w.hierarchy.tale w'.hierarchy id) ∧
      (∀ d region, e.bindArguments name args = .ok (d, region) →
        whats.head? = some (.runStarted d.name)) ∧
      ∃ init, whats = init ++ [.ending name r] ∧ (Happening.ending name r).isTerminal = true ∧
        ∀ what ∈ init, what.isTerminal = false := by
  rcases run_does hrun fun _ _ => exists_abortRun hinj hs caller name args with ⟨w₂, hdeeds, rfl, _⟩
  have hend : ∀ id, (Happening.ending name r).isAbout id = false := by
    intro id
    rcases r with cause | o
    · rfl
    · simp only [Happening.ending]
      cases o.status <;> rfl
  have hlast : ∀ id, story id [Happening.ending name r] = [] := by
    intro id
    rw [story, List.filter_cons, hend id]
    rfl
  cases hb : e.bindArguments name args with
  | error cause =>
    rw [opened_of_error hb] at hdeeds
    rcases hdeeds.replays hinj hs with ⟨whats, hev, htale, hterm⟩
    refine ⟨whats ++ [.ending name r], ?_, ?_, ?_, whats, rfl, Happening.isTerminal_ending name r, hterm⟩
    · simp only [World.told] at hev ⊢
      rw [hev, List.map_append, List.append_assoc]
    · intro id
      rw [story_append, hlast, List.append_nil, htale]
      rfl
    · intro d region hok
      cases hok
  | ok bound =>
    rcases bound with ⟨d, region⟩
    rw [opened_of_ok hb] at hdeeds
    have hs' : Settled e (w.begun caller.agent.id d) := ⟨hs.openPath, hs.fresh⟩
    rcases hdeeds.replays hinj hs' with ⟨whats, hev, htale, hterm⟩
    refine ⟨.runStarted d.name :: whats ++ [.ending name r], ?_, ?_, ?_, .runStarted d.name :: whats, rfl,
      Happening.isTerminal_ending name r, ?_⟩
    · simp only [World.told, World.begun] at hev ⊢
      simp [hev]
    · intro id
      rw [story_append, hlast, List.append_nil]
      exact htale id
    · intro d' region' hok
      cases hok
      rfl
    · intro what hmem
      rcases List.mem_cons.1 hmem with rfl | hmem
      · rfl
      · exact hterm what hmem

end Engine

/-- The log of the outing tells of all its threads, and ends with its failure. -/
theorem Outing.run_replays :
    ∃ whats, (Outing.engine.run Outing.traveller "outing" .empty Outing.world).2.events =
        whats.map (fun what => ⟨"agent", what⟩) ∧
      (∀ id, story id whats = Outing.world.hierarchy.tale
        (Outing.engine.run Outing.traveller "outing" .empty Outing.world).2.hierarchy id) ∧
      whats.head? = some (.runStarted "outing") ∧
      whats.getLast? = some (.runFailed "outing" (Error.toolNotFound "lamp").message) := by
  rcases Engine.replays_of_run unary_injective Outing.settled Outing.traveller "outing" .empty rfl with
    ⟨whats, hev, htale, hfirst, init, hlast, _, _⟩
  refine ⟨whats, hev, htale, hfirst Outing.outing .empty rfl, ?_⟩
  rw [hlast, List.getLast?_concat]
  rfl

end Playbook
