import Playbook.Proofs.Run.Walks

/-! # The nodes that a run dispatches

A run is a tree of walks. `Standing` is the state of one walk before it dispatches a node, and `Next`
leads from there to what is dispatched then: the next node of the same walk, or the first node of a
playbook that is called.

Main statements: `Standing.rest_along` carries a relation between worlds from what the visited standings do
to the whole walk, `Standing.rest_logs` says that every start of a node in the log of a walk is a standing
that can be reached from its beginning, with the log as it was then, and `Engine.run_logs` says so of
whole runs.
-/

namespace Playbook

open Relation (ReflTransGen)

variable {σ α β : Type}

/-! ## Standings -/

/-- A walk before it dispatches a node. -/
structure Standing (σ : Type) where
  /-- How many calls may still be nested in the walk. -/
  calls : Nat
  playbook : Definition
  /-- The hierarchy in which the walk started. -/
  before : Hierarchy
  /-- The thread in which the walk started. -/
  origin : ThreadId
  made : Nat
  node : String
  frame : Frame
  world : World σ

namespace Standing

/-- A walk at the start of its playbook. -/
def start (calls : Nat) (d : Definition) (region : Region) (thread : ThreadId) (w : World σ) :
    Standing σ :=
  { calls, playbook := d, before := w.hierarchy, origin := thread, made := 0, node := d.start
    frame := .start region thread, world := w }

variable (e : Engine σ) (caller : Caller) (p : Standing σ)

/-- What becomes of the walk from here on. -/
def rest : Except Error WalkEnd × World σ :=
  e.steps caller (e.level caller p.calls) p.playbook (e.config.engine.maxSteps - p.made) p.made p.node
    p.frame p.world

/-- The walk dispatches this node now. -/
structure Dispatches (node : Node) : Prop where
  running : p.world.stops e.host = false
  made_lt : p.made < e.config.engine.maxSteps
  node_eq : p.playbook.node? p.node = some node

/-- The world when the node has been announced. -/
def announced (node : Node) : World σ := p.world.announced caller.agent.id p.playbook node p.made

/-- What the node does. -/
def outcome (node : Node) : Except Error (Step × Frame) × World σ :=
  e.dispatch caller (e.level caller p.calls) node p.frame (p.announced caller node)

/-- The walk after the node, where it goes on. -/
def onward (node : Node) (frame : Frame) (goal : String) (w : World σ) : Standing σ :=
  { p with
    made := p.made + 1
    node := goal
    frame
    world := w.ticked caller.agent.id p.playbook node p.made (e.level caller p.calls).depth }

/-- The node that the walk dispatches now. -/
def dispatching? : Option Node :=
  if p.world.stops e.host = false ∧ p.made < e.config.engine.maxSteps then p.playbook.node? p.node else none

/-- The walk after a node, if it goes on. -/
def onward? (node : Node) : Option (Standing σ) :=
  match p.outcome e caller node with
  | (.ok done, w) => (node.goal? done).map fun goal => p.onward e caller node done.2 goal w
  | (.error _, _) => none

/-- The walk that a call leads to, in the thread of the caller or in a session of its own. -/
def callee? (node : Node) (c : Call) : Option (Standing σ) :=
  match p.calls, e.prepare c (e.level caller p.calls) p.frame with
  | calls + 1, .ok (callee, region, _) =>
    match c.mode with
    | .inline => some (.start calls callee region p.frame.thread (p.announced caller node))
    | .isolated =>
      match e.open? caller c.windowRatio (some callee.name) (p.announced caller node) with
      | (.ok (.ok child), w) => some (.start calls callee region child w)
      | _ => none
  | _, _ => none

/-- The walk that a node calls, at its start. -/
def called? (node : Node) : Option (Standing σ) :=
  match node.kind with
  | .invoke c => p.callee? e caller node c
  | _ => none

end Standing

/-- What is dispatched after a standing: the node to which the walk goes on, or the start of a playbook that
the node calls, inline or in a session of its own. -/
inductive Next (e : Engine σ) (caller : Caller) (p : Standing σ) : Standing σ → Prop where
  | onward {node : Node} {done : Step × Frame} {goal : String} {w : World σ}
      (hd : p.Dispatches e node) (hx : p.outcome e caller node = (.ok done, w))
      (hgoal : node.goal? done = some goal) :
    Next e caller p (p.onward e caller node done.2 goal w)
  | inline {node : Node} {c : Call} {calls : Nat} {callee : Definition} {region : Region}
      {descend : Definition → Frame → Exec σ WalkEnd} (hd : p.Dispatches e node)
      (hkind : node.kind = .invoke c) (hmode : c.mode = .inline) (hcalls : p.calls = calls + 1)
      (hp : e.prepare c (e.level caller p.calls) p.frame = .ok (callee, region, descend)) :
    Next e caller p (.start calls callee region p.frame.thread (p.announced caller node))
  | isolated {node : Node} {c : Call} {calls : Nat} {callee : Definition} {region : Region}
      {descend : Definition → Frame → Exec σ WalkEnd} {child : ThreadId} {w : World σ}
      (hd : p.Dispatches e node) (hkind : node.kind = .invoke c) (hmode : c.mode = .isolated)
      (hcalls : p.calls = calls + 1)
      (hp : e.prepare c (e.level caller p.calls) p.frame = .ok (callee, region, descend))
      (ho : e.open? caller c.windowRatio (some callee.name) (p.announced caller node) =
        (.ok (.ok child), w)) :
    Next e caller p (.start calls callee region child w)

namespace Standing

variable {e : Engine σ} {caller : Caller} {p q : Standing σ} {node : Node}

theorem dispatching?_eq_some : p.dispatching? e = some node ↔ p.Dispatches e node := by
  rw [dispatching?]
  constructor
  · intro h
    split at h
    · rename_i hmay
      exact ⟨hmay.1, hmay.2, h⟩
    · cases h
  · intro hd
    rw [if_pos ⟨hd.running, hd.made_lt⟩, hd.node_eq]

theorem dispatching?_eq_none : p.dispatching? e = none ↔ ¬ ∃ node, p.Dispatches e node := by
  rw [Option.eq_none_iff_forall_ne_some, not_exists]
  exact forall_congr' fun node => not_congr dispatching?_eq_some

/-- A walk goes on with the same playbook and the same number of nested calls. -/
theorem onward?_cases (h : p.onward? e caller node = some q) :
    ∃ done goal w, p.outcome e caller node = (.ok done, w) ∧ node.goal? done = some goal ∧
      q = p.onward e caller node done.2 goal w := by
  rw [onward?] at h
  split at h
  · rename_i done w hx
    obtain ⟨goal, hgoal, rfl⟩ := Option.map_eq_some_iff.1 h
    exact ⟨done, goal, w, hx, hgoal, rfl⟩
  · cases h

/-- A call leads to the start of a playbook, and leaves fewer calls to be nested. -/
theorem callee?_cases {c : Call} (h : p.callee? e caller node c = some q) :
    ∃ calls callee region descend, p.calls = calls + 1 ∧
      e.prepare c (e.level caller p.calls) p.frame = .ok (callee, region, descend) ∧
      ((c.mode = .inline ∧ q = .start calls callee region p.frame.thread (p.announced caller node)) ∨
        (c.mode = .isolated ∧ ∃ child w,
          e.open? caller c.windowRatio (some callee.name) (p.announced caller node) =
            (.ok (.ok child), w) ∧
          q = .start calls callee region child w)) := by
  unfold callee? at h
  split at h
  · rename_i calls callee region descend hcalls hp
    refine ⟨calls, callee, region, descend, hcalls, hp, ?_⟩
    split at h
    · rename_i hmode
      cases h
      exact .inl ⟨hmode, rfl⟩
    · rename_i hmode
      split at h
      · rename_i child w ho
        cases h
        exact .inr ⟨hmode, child, w, ho, rfl⟩
      · cases h
  · cases h

theorem called?_of_kind {c : Call} (hkind : node.kind = .invoke c) :
    p.called? e caller node = p.callee? e caller node c := by
  rw [called?, hkind]

theorem called?_cases (h : p.called? e caller node = some q) :
    ∃ c, node.kind = .invoke c ∧ p.callee? e caller node c = some q := by
  cases hkind : node.kind with
  | invoke c => exact ⟨c, rfl, called?_of_kind hkind ▸ h⟩
  | _ =>
    rw [called?, hkind] at h
    cases h

theorem calls_lt_of_called? (h : p.called? e caller node = some q) : q.calls < p.calls := by
  rcases called?_cases h with ⟨c, _, hcallee⟩
  rcases callee?_cases hcallee with ⟨calls, callee, region, descend, hcalls, _, ⟨_, rfl⟩ | ⟨_, _, _, _, rfl⟩⟩
  all_goals
    rw [hcalls]
    exact Nat.lt_succ_self calls

end Standing

/-- A node leads on, or to the walk that it calls. -/
theorem Next.of_onward {e : Engine σ} {caller : Caller} {p q : Standing σ} {node : Node}
    (hd : p.Dispatches e node) (h : p.onward? e caller node = some q) : Next e caller p q := by
  rcases Standing.onward?_cases h with ⟨done, goal, w, hx, hgoal, rfl⟩
  exact .onward hd hx hgoal

theorem Next.of_called {e : Engine σ} {caller : Caller} {p q : Standing σ} {node : Node}
    (hd : p.Dispatches e node) (h : p.called? e caller node = some q) : Next e caller p q := by
  rcases Standing.called?_cases h with ⟨c, hkind, hcallee⟩
  rcases Standing.callee?_cases hcallee with
    ⟨calls, callee, region, descend, hcalls, hp, ⟨hmode, rfl⟩ | ⟨hmode, child, w, ho, rfl⟩⟩
  · exact .inline hd hkind hmode hcalls hp
  · exact .isolated hd hkind hmode hcalls hp ho

/-- Nothing else is dispatched next. -/
theorem Next.cases {e : Engine σ} {caller : Caller} {p q : Standing σ} (hn : Next e caller p q) :
    ∃ node, p.Dispatches e node ∧
      (p.called? e caller node = some q ∨ p.onward? e caller node = some q) := by
  cases hn with
  | @onward node done goal w hd hx hgoal =>
    refine ⟨node, hd, .inr ?_⟩
    rw [Standing.onward?, hx]
    simp only [hgoal, Option.map_some]
  | @inline node c calls callee region descend hd hkind hmode hcalls hp =>
    refine ⟨node, hd, .inl ?_⟩
    rw [hcalls] at hp
    rw [Standing.called?_of_kind hkind]
    simp only [Standing.callee?, hcalls, hp, hmode]
  | @isolated node c calls callee region descend child w hd hkind hmode hcalls hp ho =>
    refine ⟨node, hd, .inl ?_⟩
    rw [hcalls] at hp
    rw [Standing.called?_of_kind hkind]
    simp only [Standing.callee?, hcalls, hp, hmode, ho]

/-- Everything that is dispatched from a standing on, itself included. -/
def Visits (e : Engine σ) (caller : Caller) : Standing σ → Standing σ → Prop :=
  ReflTransGen (Next e caller)

/-! ## Logs -/

/-- A log goes on, and whenever a node is started in the new part, `V` holds of the log before and the
event. -/
def Logs (V : List Event → Event → Prop) (l l' : List Event) : Prop :=
  l <+: l' ∧ ∀ i ev, l.length ≤ i → l'[i]? = some ev → ¬ Quiet ev.what → V (l'.take i) ev

namespace Logs

variable {V V' : List Event → Event → Prop} {l l' l'' : List Event}

theorem refl (l : List Event) : Logs V l l := by
  refine ⟨List.prefix_refl l, ?_⟩
  intro i ev hi hev
  rw [List.getElem?_eq_none hi] at hev
  cases hev

theorem trans (h : Logs V l l') (h' : Logs V l' l'') : Logs V l l'' := by
  refine ⟨h.1.trans h'.1, ?_⟩
  intro i ev hi hev hloud
  by_cases hlt : i < l'.length
  · -- the event stands in the first part, which the second does not change
    rcases h'.1 with ⟨rest, rfl⟩
    rw [List.getElem?_append_left hlt] at hev
    rw [List.take_append_of_le_length (Nat.le_of_lt hlt)]
    exact h.2 i ev hi hev hloud
  · exact h'.2 i ev (Nat.le_of_not_lt hlt) hev hloud

theorem mono (hV : ∀ l ev, V l ev → V' l ev) (h : Logs V l l') : Logs V' l l' :=
  ⟨h.1, fun i ev hi hev hloud => hV _ _ (h.2 i ev hi hev hloud)⟩

/-- One more event. -/
theorem snoc {ev : Event} (h : ¬ Quiet ev.what → V l ev) : Logs V l (l ++ [ev]) := by
  refine ⟨List.prefix_append _ _, ?_⟩
  intro i ev' hi hev hloud
  rw [List.getElem?_append_right hi, List.getElem?_singleton] at hev
  split at hev
  · rename_i hzero
    cases hev
    have hlen : i = l.length := by omega
    rw [hlen, List.take_left]
    exact h hloud
  · cases hev

/-- Small changes that start no node add nothing to look at. -/
theorem of_effects {e : Engine σ} {w w' : World σ} (h : Effects e Quiet w w') :
    Logs V w.events w'.events := by
  induction h with
  | refl => exact .refl _
  | tail _ hlast ih =>
    refine ih.trans ?_
    cases hlast with
    | published agent what hquiet => exact .snoc fun hloud => absurd hquiet hloud
    | _ => exact .refl _

end Logs

/-! ## Along an action -/

/-- The worlds before and behind the action are related so, whether it fails or not. -/
def Along (R : World σ → World σ → Prop) (x : Exec σ α) (w : World σ) : Prop := R w (x w).2

theorem Along.bind {R : World σ → World σ → Prop} {x : Exec σ α} {k : α → Exec σ β} {w : World σ}
    (htrans : ∀ {a b c}, R a b → R b c → R a c) (hx : Along R x w)
    (hk : ∀ a w', x w = (.ok a, w') → Along R (k a) w') : Along R (x >>= k) w := by
  rw [Along, Exec.bind_run]
  unfold Along at hx
  rcases hr : x w with ⟨r, w'⟩
  rw [hr] at hx
  cases r with
  | ok a => exact htrans hx (hk a w' hr)
  | error c => exact hx

/-- What goes on behind an action, if it does not fail. -/
theorem Along.behind {R : World σ → World σ → Prop} {x : Exec σ α} {k : α → Exec σ β} {w : World σ}
    (hrefl : ∀ w, R w w) (hk : ∀ a w', x w = (.ok a, w') → Along R (k a) w') :
    R (x w).2 ((x >>= k) w).2 := by
  rw [Exec.bind_run]
  rcases hr : x w with ⟨r, w'⟩
  cases r with
  | ok a => exact hk a w' hr
  | error c => exact hrefl w'

/-- An action that starts no node adds nothing to look at. -/
theorem Logs.of_acts {e : Engine σ} {V : List Event → Event → Prop} {x : Exec σ α} {w : World σ}
    (h : Acts e Quiet x) : Along (fun a b => Logs V a.events b.events) x w :=
  .of_effects (h w)

/-- A relation that holds along all that calls and sessions need, and over several actions in a row. -/
structure Carried (e : Engine σ) (caller : Caller) (R : World σ → World σ → Prop) : Prop where
  refl : ∀ w, R w w
  trans : ∀ {a b c}, R a b → R b c → R a c
  polled : ∀ w, R w (w.polled e.host)
  opened : ∀ ratio label w, Along R (e.open? caller ratio label) w
  rejected : ∀ node cause f w, Along R (Engine.reject caller node cause f) w
  closed : ∀ id summarize f w, Along R (e.close caller id summarize f) w
  aborted : ∀ id w, Along R (Exec.aborting caller.agent.id fun h => h.abort id e.now) w
  abortedAbove : ∀ id w, Along R (Exec.aborting caller.agent.id fun h => h.abortAbove id e.now) w

namespace Carried

variable {e : Engine σ} {caller : Caller} {R : World σ → World σ → Prop} {w : World σ} {f : Frame}

theorem ofExcept (hR : Carried e caller R) (r : Except Error α) : Along R (Exec.ofExcept r) w := by
  cases r <;> exact hR.refl w

theorem closedAll (hR : Carried e caller R) (ids : List (Option ThreadId)) :
    Along R (e.closeAll caller ids f) w := by
  induction ids generalizing f w with
  | nil => exact hR.refl w
  | cons entry rest ih =>
    cases entry with
    | none => exact ih
    | some id => exact .bind hR.trans (hR.closed id true _ w) fun _ _ _ => ih

section

variable {callee : Definition} {region : Region} {descend : Definition → Frame → Exec σ WalkEnd}

/-- Behind the walk that is called inline, what it has opened is aborted if it fails. -/
theorem behindInline (hR : Carried e caller R) :
    R (descend callee (.start region f.thread) w).2 (e.callInline caller callee region descend f w).2 := by
  rw [Engine.callInline_eq]
  refine Along.behind (x := Exec.attempt (descend callee (.start region f.thread))) hR.refl ?_
  intro r w' _
  cases r with
  | ok done => exact hR.refl w'
  | error cause =>
    refine .bind hR.trans (hR.abortedAbove f.thread w') ?_
    intro _ w'' _
    exact hR.refl w''

/-- Behind the walk of an isolated call, what it has left open and its own session are closed, or that is
aborted. -/
theorem behindIsolated (hR : Carried e caller R) (summarize : Bool) (child : ThreadId) :
    R (descend callee (.start region child) w).2
      (e.callIsolated caller callee region descend summarize child w).2 := by
  -- a walk that ends has its sessions closed; one that fails or is cancelled has its own aborted
  have hwalk : R (descend callee (.start region child) w).2
      (e.walkIsolated caller callee region descend summarize child w).2 := by
    refine Along.behind hR.refl ?_
    intro done w' _
    split
    · exact hR.refl w'
    · refine .bind hR.trans (hR.closedAll _) ?_
      intro frame w'' _
      exact .bind hR.trans (hR.closed _ _ _ w'') fun _ w₃ _ => hR.refl w₃
  rw [Engine.callIsolated_eq]
  refine hR.trans hwalk (Along.behind
    (x := Exec.attempt (e.walkIsolated caller callee region descend summarize child)) hR.refl ?_)
  intro r w' _
  cases r with
  | ok done =>
    simp only
    split
    · exact .bind hR.trans (hR.aborted child w') fun _ w'' _ => hR.refl w''
    · exact hR.refl w'
  | error cause => exact .bind hR.trans (hR.aborted child w') fun _ w'' _ => hR.refl w''

end

end Carried

/-! ## Nodes -/

section

variable {e : Engine σ} {caller : Caller} {node : Node} {f : Frame} {w : World σ}

/-- Only a call depends on how playbooks are called. -/
theorem Engine.dispatch_congr {level level' : Level σ} (hdepth : level'.depth = level.depth)
    (hkind : ∀ c, node.kind ≠ .invoke c) :
    e.dispatch caller level' node f = e.dispatch caller level node f := by
  simp only [dispatch, hdepth]
  cases hk : node.kind with
  | invoke c => exact absurd hk (hkind c)
  | _ => rfl

/-- A node that calls nothing starts no node. -/
theorem Engine.acts_dispatch_of_no_call {level : Level σ} (hkind : ∀ c, node.kind ≠ .invoke c) :
    Acts e Quiet (e.dispatch caller level node f) := by
  have hcongr : e.dispatch caller ⟨level.depth, none⟩ node f = e.dispatch caller level node f :=
    dispatch_congr rfl hkind
  rw [← hcongr]
  exact acts_dispatch (fun _ h => h) fun descend hd => (by cases hd)

/-- Where a failure leads to a node, the world is that of the call all the same. -/
theorem Engine.invoke_world (c : Call) (level : Level σ) :
    (e.invoke caller node c level f w).2 = (e.call caller node c level f w).2 := by
  unfold invoke
  cases c.onFailure with
  | none => rfl
  | some target =>
    simp only
    rw [Exec.bind_run]
    simp only [Exec.attempt]
    cases (e.call caller node c level f w).1 with
    | ok p => rfl
    | error cause =>
      simp only
      rw [Exec.bind_run]
      cases f.write errorKey (.str cause.message) <;> rfl

end

namespace Standing

variable {e : Engine σ} {caller : Caller} {p : Standing σ} {node : Node}
  {V : List Event → Event → Prop}

/-- The walk of a called playbook is the rest of its first standing. -/
theorem walk_eq_rest (calls : Nat) (d : Definition) (region : Region) (thread : ThreadId)
    (w : World σ) : e.walk caller calls d (.start region thread) w =
      (start calls d region thread w).rest e caller := by
  rw [Engine.walk_eq]
  rfl

/-- Where no node is dispatched the walk is over: it has to stop, or its playbook does not have the node, or it
has used up its steps. -/
theorem rest_eq_of_not_dispatches (h : ¬ ∃ node, p.Dispatches e node) :
    p.rest e caller =
      (if p.world.stops e.host then .ok ⟨p.frame, p.made, true⟩
        else if p.made < e.config.engine.maxSteps then .error (.nodeNotFound p.playbook.name p.node)
        else .error (.stepLimitExceeded e.config.engine.maxSteps), p.world.polled e.host) := by
  rw [rest]
  cases hc : p.world.stops e.host with
  | true => rw [Engine.steps_of_stops hc, if_pos rfl]
  | false =>
    rw [if_neg Bool.false_ne_true, World.polled_of_not_stops hc]
    cases hleft : e.config.engine.maxSteps - p.made with
    | zero => rw [Engine.steps_zero hc, if_neg (by omega)]
    | succ left =>
      cases hnode : p.playbook.node? p.node with
      | none => rw [Engine.steps_of_node_none hc hnode, if_pos (by omega)]
      | some node => exact absurd ⟨node, hc, by omega, hnode⟩ h

theorem rest_of_not_dispatches (h : ¬ ∃ node, p.Dispatches e node) :
    (p.rest e caller).2 = p.world.polled e.host := by
  rw [rest_eq_of_not_dispatches h]

/-- A walk dispatches its node and goes on where the node leads. -/
theorem rest_of_dispatches (hd : p.Dispatches e node) :
    p.rest e caller =
      match p.outcome e caller node with
      | (.error cause, w') => (.error cause, w')
      | (.ok done, w') =>
        match node.goal? done with
        | some goal => (p.onward e caller node done.2 goal w').rest e caller
        | none =>
          (.ok ⟨done.2, p.made + 1, done.1 == .halt⟩,
            w'.ticked caller.agent.id p.playbook node p.made (e.level caller p.calls).depth) := by
  have hlt := hd.made_lt
  obtain ⟨left, hleft⟩ : ∃ left, e.config.engine.maxSteps - p.made = left + 1 :=
    ⟨e.config.engine.maxSteps - p.made - 1, by omega⟩
  have hnext : e.config.engine.maxSteps - (p.made + 1) = left := by omega
  rw [rest, hleft, Engine.steps_succ hd.running hd.node_eq left p.made]
  simp only [rest, onward, hnext]
  rfl

/-- Induction along what is dispatched next: the calls that may still be nested decrease, or within a walk
the steps that are left. -/
@[elab_as_elim]
theorem induction (e : Engine σ) (caller : Caller) {motive : Standing σ → Prop}
    (step : ∀ p, (∀ q, Next e caller p q → motive q) → motive p) (p : Standing σ) : motive p := by
  -- on the calls that are allowed, and within them on the steps that are left
  induction hcalls : p.calls using Nat.strong_induction_on generalizing p with
  | _ calls ihcalls =>
    induction hleft : e.config.engine.maxSteps - p.made using Nat.strong_induction_on
      generalizing p with
    | _ left ihleft =>
      refine step p ?_
      intro q hq
      cases hq with
      | onward hd hx hgoal =>
        have hlt := hd.made_lt
        have hfewer : e.config.engine.maxSteps - (p.made + 1) < left := by omega
        exact ihleft _ hfewer _ hcalls rfl
      | inline hd hkind hmode hc hp =>
        exact ihcalls _ (by rw [← hcalls, hc]; exact Nat.lt_succ_self _) _ rfl
      | isolated hd hkind hmode hc hp ho =>
        exact ihcalls _ (by rw [← hcalls, hc]; exact Nat.lt_succ_self _) _ rfl

/-- The world of a node that calls a playbook is that of its call, however a failure is recovered. -/
theorem outcome_world {c : Call} (hkind : node.kind = .invoke c) :
    (p.outcome e caller node).2 =
      (e.call caller node c (e.level caller p.calls) p.frame (p.announced caller node)).2 := by
  rw [← Engine.invoke_world c]
  simp only [outcome, Engine.dispatch, hkind]

/-- What holds along opening and closing sessions holds along a node that walks no other playbook, and around
the walk of one that does. -/
theorem outcome_around {R : World σ → World σ → Prop} (hR : Carried e caller R) {c : Call}
    (hkind : node.kind = .invoke c) :
    (p.called? e caller node = none ∧ R (p.announced caller node) (p.outcome e caller node).2) ∨
      ∃ q, p.called? e caller node = some q ∧ R (p.announced caller node) q.world ∧
        R (q.rest e caller).2 (p.outcome e caller node).2 := by
  rw [outcome_world hkind, called?_of_kind hkind]
  cases hp : e.prepare c (e.level caller p.calls) p.frame with
  -- a call that cannot be prepared makes no walk
  | error cause =>
    refine .inl ⟨?_, ?_⟩
    · unfold callee?
      split
      · rename_i hcallee
        rw [hp] at hcallee
        cases hcallee
      · rfl
    · rw [Engine.call_of_error hp]
      exact hR.refl _
  | ok prepared =>
    rcases prepared with ⟨callee, region, descend⟩
    rcases Engine.descend_level (Engine.prepare_ok hp).2.1 with ⟨calls, hcalls, rfl⟩
    have hp' := hp
    rw [hcalls] at hp'
    cases hmode : c.mode with
    | inline =>
      refine .inr ⟨.start calls callee region p.frame.thread (p.announced caller node), ?_, ?_, ?_⟩
      · simp only [callee?, hcalls, hp', hmode]
      · exact hR.refl _
      · rw [Engine.call_inline hp hmode, ← walk_eq_rest]
        exact hR.trans hR.behindInline (Along.behind hR.refl fun _ _ _ => hR.ofExcept _)
    | isolated =>
      rw [Engine.call_isolated hp hmode]
      have hopened := hR.opened c.windowRatio (some callee.name) (p.announced caller node)
      unfold Along at hopened
      rcases ho : e.open? caller c.windowRatio (some callee.name) (p.announced caller node) with ⟨r, w'⟩
      rw [ho] at hopened
      rw [Exec.bind_run, ho]
      -- the session of the callee may fail to open, be rejected, or be there
      rcases r with cause | cause | child
      · exact .inl ⟨by simp only [callee?, hcalls, hp', hmode, ho], hopened⟩
      · have hrejected : Along R
            (Engine.reject caller node cause p.frame >>= fun f => pure (Step.proceed, f)) w' :=
          .bind hR.trans (hR.rejected _ _ _ w') fun _ w'' _ => hR.refl w''
        exact .inl ⟨by simp only [callee?, hcalls, hp', hmode, ho], hR.trans hopened hrejected⟩
      · refine .inr ⟨.start calls callee region child w', ?_, hopened, ?_⟩
        · simp only [callee?, hcalls, hp', hmode, ho]
        · rw [← walk_eq_rest]
          exact hR.trans (hR.behindIsolated c.summarize child)
            (Along.behind hR.refl fun _ _ _ => hR.ofExcept _)

/-- What holds along the walks that a node calls holds along the node. -/
theorem outcome_along {R : World σ → World σ → Prop} (hR : Carried e caller R)
    (hd : p.Dispatches e node)
    (hleaf : (∀ c, node.kind ≠ .invoke c) →
      R (p.announced caller node) (p.outcome e caller node).2)
    (hcalled : ∀ q, Next e caller p q → q.calls < p.calls → R q.world (q.rest e caller).2) :
    R (p.announced caller node) (p.outcome e caller node).2 := by
  by_cases hkind : ∃ c, node.kind = .invoke c
  · rcases hkind with ⟨c, hkind⟩
    rcases outcome_around hR hkind with ⟨_, hnone⟩ | ⟨q, hq, hbefore, hbehind⟩
    · exact hnone
    · have hwalk := hcalled q (.of_called hd hq) (calls_lt_of_called? hq)
      exact hR.trans hbefore (hR.trans hwalk hbehind)
  · exact hleaf fun c hc => hkind ⟨c, hc⟩

/-- What holds along all that the visited standings do themselves holds along a walk: along announcing a node,
along a node that calls nothing, and along noting that it is done. -/
theorem rest_along {R : World σ → World σ → Prop} (hR : Carried e caller R) (p : Standing σ)
    (hstep : ∀ q node, Visits e caller p q → q.Dispatches e node →
      R q.world (q.announced caller node) ∧
      ((∀ c, node.kind ≠ .invoke c) → R (q.announced caller node) (q.outcome e caller node).2) ∧
      ∀ w, R w (w.ticked caller.agent.id q.playbook node q.made (e.level caller q.calls).depth)) :
    R p.world (p.rest e caller).2 := by
  induction p using Standing.induction e caller with
  | step p ih =>
    -- what comes next is carried by induction, with its visits as visits of this standing
    have hnext : ∀ q, Next e caller p q → R q.world (q.rest e caller).2 :=
      fun q hq => ih q hq fun r node hvisits => hstep r node (.head hq hvisits)
    by_cases hdisp : ∃ node, p.Dispatches e node
    · rcases hdisp with ⟨node, hd⟩
      rcases hstep p node .refl hd with ⟨hannounced, hleaf, hticked⟩
      have hnode : R p.world (p.outcome e caller node).2 :=
        hR.trans hannounced (outcome_along hR hd hleaf fun q hq _ => hnext q hq)
      rw [rest_of_dispatches hd]
      rcases hx : p.outcome e caller node with ⟨r, w'⟩
      rw [hx] at hnode
      cases r with
      | error cause => exact hnode
      | ok done =>
        have hdone := hR.trans hnode (hticked w')
        cases hgoal : node.goal? done with
        | none =>
          simp only [hgoal]
          exact hdone
        | some goal =>
          simp only [hgoal]
          exact hR.trans hdone (hnext _ (.onward hd hx hgoal))
    · rw [rest_of_not_dispatches hdisp]
      exact hR.polled _

/-- Sessions are entered and closed without any node being started. -/
theorem carried_logs (e : Engine σ) (caller : Caller) (V : List Event → Event → Prop) :
    Carried e caller (fun a b => Logs V a.events b.events) where
  refl := fun w => .refl w.events
  trans := .trans
  polled := fun w => .refl w.events
  opened := fun ratio label _ => .of_acts (Engine.acts_open? ratio label)
  rejected := fun _ cause _ _ => .of_acts (e := e) (Engine.acts_reject cause)
  closed := fun id summarize _ _ => .of_acts (Engine.acts_close id summarize)
  aborted := fun id _ => .of_acts (Engine.acts_abort id)
  abortedAbove := fun id _ =>
    .of_acts (e := e) (.aborting _ (.abortAbove id e.now) rfl (fun _ => trivial) fun _ _ => rfl)

/-- The log is that of a standing which can be reached, and the event is the start of the node that it
dispatches. -/
def Witnessed (e : Engine σ) (caller : Caller) (p : Standing σ) (log : List Event) (ev : Event) :
    Prop :=
  ∃ q node, Visits e caller p q ∧ q.Dispatches e node ∧ q.world.events = log ∧
    ev = ⟨caller.agent.id, .nodeStarted q.playbook.name node.id (q.made + 1)⟩

/-- Every start of a node in the log of a walk is that of a standing which can be reached. -/
theorem rest_logs (p : Standing σ) :
    Logs (Witnessed e caller p) p.world.events (p.rest e caller).2.events := by
  refine rest_along (carried_logs e caller _) p ?_
  intro q node hvisits hd
  refine ⟨.snoc fun _ => ⟨q, node, hvisits, hd, rfl, rfl⟩, ?_, ?_⟩
  · intro hkind
    exact Logs.of_acts (Engine.acts_dispatch_of_no_call hkind)
  · intro w
    exact .snoc fun hloud => absurd trivial hloud

end Standing

/-! ## Runs -/

/-- The world when a run has been announced. -/
def World.begun (w : World σ) (agent : String) (d : Definition) : World σ :=
  { w with events := w.events ++ [⟨agent, .runStarted d.name⟩] }

namespace Engine

variable {e : Engine σ} {caller : Caller}

/-- The standings of a run: those that can be reached from the start of its playbook in the active thread.
-/
def Visited (e : Engine σ) (caller : Caller) (name : String) (args : Dict Json) (w : World σ)
    (p : Standing σ) : Prop :=
  ∃ d region, e.bindArguments name args = .ok (d, region) ∧
    Visits e caller (.start e.config.engine.maxCallDepth d region w.hierarchy.active
      (w.begun caller.agent.id d)) p

/-- A run that binds its arguments walks its playbook. -/
theorem start_eq_rest {name : String} {args : Dict Json} {d : Definition} {region : Region}
    (hb : e.bindArguments name args = .ok (d, region)) (mark : ThreadId) (w : World σ) :
    e.start caller name args mark w =
      (Standing.start e.config.engine.maxCallDepth d region mark
        (w.begun caller.agent.id d)).rest e caller := by
  rw [start, hb, ← Standing.walk_eq_rest]
  rfl

/-- A run that cannot bind its arguments does nothing. -/
theorem start_of_error {name : String} {args : Dict Json} {cause : Error}
    (hb : e.bindArguments name args = .error cause) (mark : ThreadId) (w : World σ) :
    e.start caller name args mark w = (.error cause, w) := by
  rw [start, hb]
  rfl

/-- The log is that of a standing of the run, and the event is the start of the node that it dispatches. -/
def Announced (e : Engine σ) (caller : Caller) (name : String) (args : Dict Json) (w : World σ)
    (log : List Event) (ev : Event) : Prop :=
  ∃ p node, e.Visited caller name args w p ∧ p.Dispatches e node ∧ p.world.events = log ∧
    ev = ⟨caller.agent.id, .nodeStarted p.playbook.name node.id (p.made + 1)⟩

/-- Until it cleans up, every start of a node in the log of a run is that of one of its standings. -/
theorem start_logs (e : Engine σ) (caller : Caller) (name : String) (args : Dict Json) (w : World σ) :
    Logs (e.Announced caller name args w) w.events
      (e.start caller name args w.hierarchy.active w).2.events := by
  cases hb : e.bindArguments name args with
  | error cause =>
    rw [start_of_error hb]
    exact .refl _
  | ok bound =>
    rcases bound with ⟨d, region⟩
    rw [start_eq_rest hb]
    have hbegun : Logs (e.Announced caller name args w) w.events
        (w.begun caller.agent.id d).events := .snoc fun hloud => absurd trivial hloud
    -- after the start of the run the log grows by what the walk announces
    let p := Standing.start e.config.engine.maxCallDepth d region w.hierarchy.active
      (w.begun caller.agent.id d)
    have hrest : Logs (Standing.Witnessed e caller p) p.world.events (p.rest e caller).2.events :=
      Standing.rest_logs p
    refine hbegun.trans (hrest.mono ?_)
    rintro log ev ⟨q, node, hvisits, hq⟩
    exact ⟨q, node, ⟨d, region, hb, hvisits⟩, hq⟩

/-- Every start of a node in the log of a run is that of one of its standings. -/
theorem run_logs (e : Engine σ) (caller : Caller) (name : String) (args : Dict Json) (w : World σ) :
    Logs (e.Announced caller name args w) w.events (e.run caller name args w).2.events := by
  let R : World σ → World σ → Prop :=
    fun a b => Logs (e.Announced caller name args w) a.events b.events
  have hR : Carried e caller R := Standing.carried_logs e caller _
  have hstart : Along R (Exec.attempt (e.start caller name args w.hierarchy.active)) w :=
    start_logs e caller name args w
  show Along R (e.run caller name args) w
  refine .bind hR.trans (hR.refl w) ?_
  intro mark w' hlook
  cases hlook
  refine .bind hR.trans hstart ?_
  intro r w' _
  -- no node is started while the run is cleaned up
  have habort : Acts e Quiet
      (Exec.aborting caller.agent.id fun h => h.abortRun w.hierarchy.active e.now) :=
    .aborting _ (.abortRun w.hierarchy.active e.now) rfl (fun _ => trivial) fun _ _ => rfl
  refine Logs.of_acts (e := e) ?_
  split
  · split
    · refine .bind habort fun _ => .bind (.look _) fun _ => .bind ?_ fun _ => .look _
      exact .publish _ trivial
    · refine .bind ?_ fun _ => .look _
      exact .publish _ trivial
  · refine .bind (.attempt habort) fun _ => .bind ?_ fun _ => .throw _
    exact .publish _ trivial

end Engine

end Playbook
