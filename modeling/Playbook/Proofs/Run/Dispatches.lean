import Mathlib.Algebra.BigOperators.Group.Finset.Piecewise
import Mathlib.Algebra.Order.BigOperators.Group.Finset
import Playbook.Proofs.Run.Accounts

/-! # Everything that a run dispatches, in order

`Standing.dispatched` lists the nodes that a walk dispatches from a standing on, those of its callees
included, each with the number of calls around it. The list is finite because a call leaves fewer calls to
be nested, and a step of a walk fewer steps; failures that are recovered change nothing about that.

Main statements: `Standing.mem_dispatched_iff` says that these are the nodes that can be visited,
`Standing.rest_collects` carries a relation between worlds that counts the dispatched nodes along a walk, and
`Engine.run_collects` along a run; `Engine.dispatched_bounds` says how many nodes a run can dispatch.
-/

namespace Playbook

open Relation (ReflTransGen)

variable {σ : Type}

/-- A node that is dispatched, and the number of calls around its walk. -/
structure Dispatch (σ : Type) where
  depth : Nat
  standing : Standing σ
  node : Node

namespace Dispatch

/-- The world when the node has been announced. -/
def announced (caller : Caller) (d : Dispatch σ) : World σ := d.standing.announced caller d.node

/-- What the node does. -/
def outcome (e : Engine σ) (caller : Caller) (d : Dispatch σ) :
    Except Error (Step × Frame) × World σ :=
  d.standing.outcome e caller d.node

/-- The event that tells of its start. -/
def event (caller : Caller) (d : Dispatch σ) : Event :=
  ⟨caller.agent.id, .nodeStarted d.standing.playbook.name d.node.id (d.standing.made + 1)⟩

/-- The node calls a playbook. -/
def Calls (d : Dispatch σ) : Prop := ∃ c, d.node.kind = .invoke c

end Dispatch

namespace Standing

variable {e : Engine σ} {caller : Caller} {p q : Standing σ} {node : Node} {depth : Nat}

/-- Behind a node as many calls may still be nested, and one step more has been made. -/
theorem calls_of_onward? (h : p.onward? e caller node = some q) :
    q.calls = p.calls ∧ q.made = p.made + 1 := by
  rcases onward?_cases h with ⟨done, goal, w, _, _, rfl⟩
  exact ⟨rfl, rfl⟩

/-- In a call one less may be nested, and no step has been made. -/
theorem calls_of_called? (h : p.called? e caller node = some q) : q.calls + 1 = p.calls ∧ q.made = 0 := by
  rcases called?_cases h with ⟨c, _, hcallee⟩
  rcases callee?_cases hcallee with
    ⟨calls, callee, region, descend, hcalls, _, ⟨_, rfl⟩ | ⟨_, child, w, _, rfl⟩⟩
  · exact ⟨hcalls.symm, rfl⟩
  · exact ⟨hcalls.symm, rfl⟩

/-- The nodes that are dispatched from a standing on: its own, then those of the walk that it calls, one call
deeper, then those to which the walk goes on. -/
def dispatched (e : Engine σ) (caller : Caller) (depth : Nat) (p : Standing σ) : List (Dispatch σ) :=
  match _h : p.dispatching? e with
  | none => []
  | some node =>
    ⟨depth, p, node⟩ ::
      ((match _h : p.called? e caller node with
        | some q => dispatched e caller (depth + 1) q
        | none => []) ++
      (match _h : p.onward? e caller node with
        | some q => dispatched e caller depth q
        | none => []))
termination_by (p.calls, e.config.engine.maxSteps - p.made)
decreasing_by
  · exact Prod.Lex.left _ _ (calls_lt_of_called? ‹_›)
  · rcases calls_of_onward? ‹_› with ⟨hcalls, hmade⟩
    have hlt := (dispatching?_eq_some.1 ‹_›).made_lt
    rw [hcalls, hmade]
    exact Prod.Lex.right _ (by omega)

theorem dispatched_of_not_dispatches (h : ¬ ∃ node, p.Dispatches e node) :
    p.dispatched e caller depth = [] := by
  have hnone : p.dispatching? e = none := dispatching?_eq_none.2 h
  rw [dispatched]
  split
  · rfl
  · rename_i node hd
    rw [hnone] at hd
    cases hd

/-- What is dispatched from a standing is its node, then what its call dispatches, then what follows. -/
theorem dispatched_of_dispatches (hd : p.Dispatches e node) :
    p.dispatched e caller depth =
      ⟨depth, p, node⟩ ::
        ((p.called? e caller node).elim [] (dispatched e caller (depth + 1)) ++
          (p.onward? e caller node).elim [] (dispatched e caller depth)) := by
  have hsome := dispatching?_eq_some.2 hd
  rw [dispatched]
  split
  · rename_i hnone
    rw [hsome] at hnone
    cases hnone
  · rename_i node' hsome'
    cases hsome.symm.trans hsome'
    -- the callee and the next node are found in the same way
    congr 2
    all_goals
      split
      · rename_i q hq
        rw [hq]
        rfl
      · rename_i hq
        rw [hq]
        rfl

theorem mem_elim {o : Option (Standing σ)} {l : Standing σ → List (Dispatch σ)} {d : Dispatch σ} :
    d ∈ o.elim [] l ↔ ∃ q, o = some q ∧ d ∈ l q := by
  cases o with
  | none => simp
  | some q => simp

/-- What is dispatched from a standing on can be visited from there, and each call takes one from the calls
that may be nested. -/
theorem of_mem_dispatched {d : Dispatch σ} (h : d ∈ p.dispatched e caller depth) :
    Visits e caller p d.standing ∧ d.standing.Dispatches e d.node ∧ depth ≤ d.depth ∧
      d.depth + d.standing.calls = depth + p.calls := by
  induction p using Standing.induction e caller generalizing depth with
  | step p ih =>
    by_cases hdisp : ∃ node, p.Dispatches e node
    · rcases hdisp with ⟨node, hd⟩
      rw [dispatched_of_dispatches hd, List.mem_cons, List.mem_append, mem_elim, mem_elim] at h
      -- the dispatch itself, one in its callee, or one further on in the walk
      rcases h with rfl | ⟨q, hq, hmem⟩ | ⟨q, hq, hmem⟩
      · exact ⟨.refl, hd, Nat.le_refl _, rfl⟩
      · have hnext : Next e caller p q := .of_called hd hq
        obtain ⟨hvisits, hdisp, hle, hsum⟩ := ih q hnext hmem
        have hcalls := (calls_of_called? hq).1
        exact ⟨.head hnext hvisits, hdisp, by omega, by omega⟩
      · have hnext : Next e caller p q := .of_onward hd hq
        obtain ⟨hvisits, hdisp, hle, hsum⟩ := ih q hnext hmem
        have hcalls := (calls_of_onward? hq).1
        exact ⟨.head hnext hvisits, hdisp, hle, by omega⟩
    · rw [dispatched_of_not_dispatches hdisp] at h
      exact absurd h List.not_mem_nil

/-- Every standing that can be visited is in the list with the node that it dispatches. -/
theorem mem_dispatched_of_visits (hv : Visits e caller p q) (hd : q.Dispatches e node) (depth : Nat) :
    ∃ n, ⟨n, q, node⟩ ∈ p.dispatched e caller depth := by
  induction hv using ReflTransGen.head_induction_on generalizing depth with
  | refl =>
    refine ⟨depth, ?_⟩
    rw [dispatched_of_dispatches hd]
    exact List.mem_cons_self
  | head hnext _ ih =>
    -- the visit begins with a call, one level deeper, or with the next node
    rcases hnext.cases with ⟨node', hd', hq | hq⟩
    · obtain ⟨n, hmem⟩ := ih (depth + 1)
      refine ⟨n, ?_⟩
      rw [dispatched_of_dispatches hd', List.mem_cons, List.mem_append, mem_elim]
      exact .inr (.inl ⟨_, hq, hmem⟩)
    · obtain ⟨n, hmem⟩ := ih depth
      refine ⟨n, ?_⟩
      rw [dispatched_of_dispatches hd', List.mem_cons, List.mem_append, mem_elim, mem_elim]
      exact .inr (.inr ⟨_, hq, hmem⟩)

/-- Exactly the visited standings dispatch, at a depth that tells how many calls may still be nested. -/
theorem mem_dispatched_iff {d : Dispatch σ} :
    d ∈ p.dispatched e caller depth ↔
      Visits e caller p d.standing ∧ d.standing.Dispatches e d.node ∧
        d.depth + d.standing.calls = depth + p.calls := by
  constructor
  · intro h
    obtain ⟨hvisits, hd, _, hsum⟩ := of_mem_dispatched h
    exact ⟨hvisits, hd, hsum⟩
  · rintro ⟨hvisits, hd, hsum⟩
    obtain ⟨n, hmem⟩ := mem_dispatched_of_visits hvisits hd depth
    have hn : n + d.standing.calls = depth + p.calls := (of_mem_dispatched hmem).2.2.2
    have heq : n = d.depth := by omega
    rw [heq] at hmem
    exact hmem

end Standing

/-! ## Relations that count what is dispatched -/

/-- A relation between two worlds and the nodes that are dispatched between them. Without any of them it holds
along all that calls, sessions and the ends of a run need. -/
structure Collects (e : Engine σ) (caller : Caller) (R : List (Dispatch σ) → World σ → World σ → Prop) :
    Prop where
  carried : Carried e caller (R [])
  append : ∀ {l l' a b c}, R l a b → R l' b c → R (l ++ l') a c
  begun : ∀ d w, R [] w (w.begun caller.agent.id d)
  ended : ∀ what w, what.isTerminal = true → Along (R []) (Exec.publish caller.agent.id what) w
  abortedRun : ∀ id w, Along (R []) (Exec.aborting caller.agent.id fun h => h.abortRun id e.now) w

/-- What a dispatched node has to satisfy by itself. A node that calls a playbook is looked at until it is
announced, any other until it is done. -/
structure Dispatch.Counts (e : Engine σ) (caller : Caller)
    (R : List (Dispatch σ) → World σ → World σ → Prop) (d : Dispatch σ) : Prop where
  leaf : ¬ d.Calls → R [d] d.standing.world (d.outcome e caller).2
  call : d.Calls → R [d] d.standing.world (d.announced caller)
  ticked : ∀ w, R [] w (w.ticked caller.agent.id d.standing.playbook d.node d.standing.made
    (e.level caller d.standing.calls).depth)

namespace Standing

variable {e : Engine σ} {caller : Caller} {p : Standing σ} {node : Node} {depth : Nat}
  {R : List (Dispatch σ) → World σ → World σ → Prop}

/-- A node, with all that is dispatched in the walk that it calls. -/
theorem outcome_collects (hR : Collects e caller R) (hnode : Dispatch.Counts e caller R ⟨depth, p, node⟩)
    (hcalled : ∀ q, p.called? e caller node = some q →
      R (q.dispatched e caller (depth + 1)) q.world (q.rest e caller).2) :
    R (⟨depth, p, node⟩ :: (p.called? e caller node).elim [] (dispatched e caller (depth + 1))) p.world
      (p.outcome e caller node).2 := by
  by_cases hkind : ∃ c, node.kind = .invoke c
  · have hannounced := hnode.call hkind
    rcases hkind with ⟨c, hkind⟩
    -- the walk of the callee lies between what is done before and behind it
    rcases outcome_around hR.carried hkind with ⟨hnone, hsame⟩ | ⟨q, hq, hbefore, hbehind⟩
    · rw [hnone]
      exact hR.append hannounced hsame
    · rw [hq]
      have hwalk := hR.append (hR.append hbefore (hcalled q hq)) hbehind
      rw [List.nil_append, List.append_nil] at hwalk
      exact hR.append hannounced hwalk
  · have hnone : p.called? e caller node = none := by
      cases hq : p.called? e caller node with
      | none => rfl
      | some q =>
        rcases called?_cases hq with ⟨c, hc, _⟩
        exact absurd ⟨c, hc⟩ hkind
    rw [hnone]
    exact hnode.leaf hkind

/-- What every dispatched node satisfies by itself holds along the whole walk. -/
theorem rest_collects (hR : Collects e caller R) (p : Standing σ) (depth : Nat)
    (hstep : ∀ d ∈ p.dispatched e caller depth, d.Counts e caller R) :
    R (p.dispatched e caller depth) p.world (p.rest e caller).2 := by
  -- a dispatch, then those of its callee, then those of the walk that goes on
  induction p using Standing.induction e caller generalizing depth with
  | step p ih =>
    by_cases hdisp : ∃ node, p.Dispatches e node
    · rcases hdisp with ⟨node, hd⟩
      have hlist : p.dispatched e caller depth = _ := dispatched_of_dispatches hd
      rw [hlist, List.forall_mem_cons, List.forall_mem_append] at hstep
      obtain ⟨hown, hcalled, honward⟩ := hstep
      rw [hlist, rest_of_dispatches hd]
      have hnode := outcome_collects hR hown fun q hq => by
        rw [hq] at hcalled
        exact ih q (.of_called hd hq) (depth + 1) hcalled
      rw [← List.cons_append]
      rcases hx : p.outcome e caller node with ⟨r, w'⟩
      rw [hx] at hnode
      cases r with
      | error cause =>
        have hnone : p.onward? e caller node = none := by
          rw [onward?, hx]
        rw [hnone]
        simp only [Option.elim_none, List.append_nil]
        exact hnode
      | ok done =>
        have hdone := hR.append hnode (hown.ticked w')
        rw [List.append_nil] at hdone
        cases hgoal : node.goal? done with
        | none =>
          have hnone : p.onward? e caller node = none := by
            rw [onward?, hx]
            simp only [hgoal, Option.map_none]
          rw [hnone]
          simp only [hgoal, Option.elim_none, List.append_nil]
          exact hdone
        | some goal =>
          have hsome : p.onward? e caller node = some (p.onward e caller node done.2 goal w') := by
            rw [onward?, hx]
            simp only [hgoal, Option.map_some]
          rw [hsome] at honward ⊢
          simp only [hgoal]
          exact hR.append hdone (ih _ (.of_onward hd hsome) depth honward)
    · rw [dispatched_of_not_dispatches hdisp, rest_of_not_dispatches hdisp]
      exact hR.carried.polled _

end Standing

namespace Engine

variable {e : Engine σ} {caller : Caller} {name : String} {args : Dict Json} {w : World σ}

/-- The nodes that a run dispatches, in order. -/
def dispatched (e : Engine σ) (caller : Caller) (name : String) (args : Dict Json) (w : World σ) :
    List (Dispatch σ) :=
  match e.bindArguments name args with
  | .ok (d, region) =>
    (Standing.start e.config.engine.maxCallDepth d region w.hierarchy.active
      (w.begun caller.agent.id d)).dispatched e caller 0
  | .error _ => []

theorem dispatched_of_error {cause : Error} (hb : e.bindArguments name args = .error cause) :
    e.dispatched caller name args w = [] := by
  rw [dispatched, hb]

/-- A run dispatches what its first standing does. -/
theorem dispatched_of_ok {d : Definition} {region : Region}
    (hb : e.bindArguments name args = .ok (d, region)) :
    e.dispatched caller name args w =
      (Standing.start e.config.engine.maxCallDepth d region w.hierarchy.active
        (w.begun caller.agent.id d)).dispatched e caller 0 := by
  rw [dispatched, hb]

/-- They are the nodes of the standings of the run. -/
theorem mem_dispatched_iff {d : Dispatch σ} :
    d ∈ e.dispatched caller name args w ↔
      e.Visited caller name args w d.standing ∧ d.standing.Dispatches e d.node ∧
        d.depth + d.standing.calls = e.config.engine.maxCallDepth := by
  cases hb : e.bindArguments name args with
  | error cause =>
    rw [dispatched_of_error hb]
    constructor
    · intro h
      exact absurd h List.not_mem_nil
    · rintro ⟨⟨d', region, hb', _⟩, _⟩
      rw [hb] at hb'
      cases hb'
  | ok bound =>
    rcases bound with ⟨d', region⟩
    rw [dispatched_of_ok hb, Standing.mem_dispatched_iff, Nat.zero_add]
    constructor
    · rintro ⟨hvisits, hrest⟩
      exact ⟨⟨d', region, hb, hvisits⟩, hrest⟩
    · rintro ⟨⟨d'', region', hb', hvisits⟩, hrest⟩
      rw [hb] at hb'
      cases hb'
      exact ⟨hvisits, hrest⟩

variable {R : List (Dispatch σ) → World σ → World σ → Prop}

/-- What every dispatched node satisfies by itself holds along the walk of a run. -/
theorem start_collects (hR : Collects e caller R)
    (hstep : ∀ d ∈ e.dispatched caller name args w, d.Counts e caller R) :
    R (e.dispatched caller name args w) w (e.start caller name args w.hierarchy.active w).2 := by
  cases hb : e.bindArguments name args with
  | error cause =>
    rw [dispatched_of_error hb, start_of_error hb]
    exact hR.carried.refl w
  | ok bound =>
    rcases bound with ⟨d, region⟩
    rw [dispatched_of_ok hb] at hstep ⊢
    rw [start_eq_rest hb]
    exact hR.append (hR.begun d w) (Standing.rest_collects hR _ 0 hstep)

/-- It holds along the whole run. -/
theorem run_collects (hR : Collects e caller R)
    (hstep : ∀ d ∈ e.dispatched caller name args w, d.Counts e caller R) :
    R (e.dispatched caller name args w) w (e.run caller name args w).2 := by
  have hstart := start_collects hR hstep
  have hended : ∀ {α : Type} (what : Happening) (k : Exec σ α) (w : World σ), what.isTerminal = true →
      (∀ w, (k w).2 = w) → Along (R []) (Exec.publish caller.agent.id what >>= fun _ => k) w := by
    intro α what k w hterm hk
    refine .bind hR.carried.trans (hR.ended what w hterm) ?_
    intro _ w' _
    rw [Along, hk]
    exact hR.carried.refl w'
  -- behind the walk a run aborts what is open and tells its end, which starts no node
  have hcleanup : R [] (e.start caller name args w.hierarchy.active w).2 (e.run caller name args w).2 := by
    rw [run, Exec.bind_run]
    simp only [Exec.look]
    refine Along.behind (x := Exec.attempt (e.start caller name args w.hierarchy.active))
      hR.carried.refl ?_
    intro r w' _
    split
    · split
      · refine .bind hR.carried.trans (hR.abortedRun _ w') ?_
        intro _ w'' _
        refine .bind hR.carried.trans (hR.carried.refl w'') ?_
        intro _ w₃ hlook
        exact hended _ _ w₃ rfl fun _ => rfl
      · exact hended _ _ w' rfl fun _ => rfl
    · refine .bind hR.carried.trans (hR.abortedRun _ w' : Along _ (Exec.attempt _) w') ?_
      intro _ w'' _
      exact hended _ _ w'' rfl fun _ => rfl
  have hrun := hR.append hstart hcleanup
  rw [List.append_nil] at hrun
  exact hrun

end Engine

/-! ## The log lists what is dispatched -/

/-- The start of a node. -/
def Happening.isStart : Happening → Bool
  | .nodeStarted .. => true
  | _ => false

theorem Quiet.isStart_eq_false {what : Happening} (h : Quiet what) : what.isStart = false := by
  cases what with
  | nodeStarted => exact h.elim
  | _ => rfl

/-- The starts of nodes in the log. -/
def World.starts (w : World σ) : List Event := w.events.filter fun ev => ev.what.isStart

/-- Quiet changes announce no node. -/
theorem Effects.starts_eq {e : Engine σ} {w w' : World σ} (h : Effects e Quiet w w') :
    w'.starts = w.starts := by
  induction h with
  | refl => rfl
  | tail _ hlast ih =>
    rw [← ih]
    cases hlast with
    | published agent what hquiet =>
      simp [World.starts, List.filter_append, hquiet.isStart_eq_false]
    | _ => rfl

/-- Between the two worlds exactly these nodes are started, in this order. -/
def Starts (caller : Caller) (l : List (Dispatch σ)) (w w' : World σ) : Prop :=
  w'.starts = w.starts ++ l.map (Dispatch.event caller)

section

variable {e : Engine σ} {caller : Caller} {w : World σ}

theorem Starts.of_acts {α : Type} {x : Exec σ α} (h : Acts e Quiet x) : Along (Starts caller []) x w := by
  show (x w).2.starts = w.starts ++ []
  rw [List.append_nil]
  exact (h w).starts_eq

/-- The nodes that are announced are collected along a walk. -/
theorem collects_starts (e : Engine σ) (caller : Caller) : Collects e caller (Starts caller) where
  carried := {
    refl := fun _ => (List.append_nil _).symm
    trans := fun hab hbc => by
      rw [Starts, hbc, hab, List.append_assoc]
      rfl
    polled := fun _ => (List.append_nil _).symm
    opened := fun ratio label _ => .of_acts (Engine.acts_open? ratio label)
    rejected := fun _ cause _ _ => .of_acts (e := e) (Engine.acts_reject cause)
    closed := fun id summarize _ _ => .of_acts (Engine.acts_close id summarize)
    aborted := fun id _ => .of_acts (Engine.acts_abort id)
    abortedAbove := fun id _ =>
      .of_acts (e := e) (.aborting _ (.abortAbove id e.now) rfl (fun _ => trivial) fun _ _ => rfl) }
  append := fun hab hbc => by
    rw [Starts, hbc, hab, List.append_assoc, List.map_append]
  begun := fun d w => by
    have hquiet : Quiet (.runStarted d.name) := trivial
    exact .of_acts (e := e) (.publish caller.agent.id hquiet)
  ended := fun what w hterm => by
    refine .of_acts (e := e) (.publish caller.agent.id ?_)
    cases what with
    | nodeStarted => cases hterm
    | _ => trivial
  abortedRun := fun id _ =>
    .of_acts (e := e) (.aborting _ (.abortRun id e.now) rfl (fun _ => trivial) fun _ _ => rfl)

/-- A dispatched node is started once, before anything else that it does. -/
theorem Dispatch.counts_starts (e : Engine σ) (caller : Caller) (d : Dispatch σ) :
    d.Counts e caller (Starts caller) := by
  have hannounced : Starts caller [d] d.standing.world (d.announced caller) := by
    show ((d.standing.world.events ++ [d.event caller]).filter fun ev => ev.what.isStart) =
      d.standing.world.starts ++ [d.event caller]
    rw [List.filter_append]
    rfl
  constructor
  · intro hleaf
    have hdone : Along (Starts caller [])
        (e.dispatch caller (e.level caller d.standing.calls) d.node d.standing.frame)
        (d.announced caller) :=
      .of_acts (Engine.acts_dispatch_of_no_call fun c hc => hleaf ⟨c, hc⟩)
    exact (collects_starts e caller).append hannounced hdone
  · intro _
    exact hannounced
  · intro w
    show ((w.events ++ [_]).filter fun ev => ev.what.isStart) = w.starts ++ []
    rw [List.filter_append]
    rfl

end

/-! ## How many there are -/

namespace Standing

variable {e : Engine σ} {caller : Caller}

/-- The nodes that are dispatched in these walks, some calls deeper. -/
theorem countP_eq_zero_of_lt (e : Engine σ) (caller : Caller) (p : Standing σ) {depth k : Nat}
    (hlt : k < depth) :
    (p.dispatched e caller depth).countP (fun d => d.depth = k) = 0 := by
  rw [List.countP_eq_zero]
  intro d hmem heq
  have hle : depth ≤ d.depth := (of_mem_dispatched hmem).2.2.1
  have hk : d.depth = k := of_decide_eq_true heq
  omega

/-- Each step that is left dispatches one node of the walk itself, and each node calls one walk at most, whose
steps are limited in the same way. -/
theorem countP_dispatched_le (e : Engine σ) (caller : Caller) (p : Standing σ) (depth j : Nat) :
    (p.dispatched e caller depth).countP (fun d => d.depth = depth + j) ≤
      (e.config.engine.maxSteps - p.made) * e.config.engine.maxSteps ^ j := by
  induction p using Standing.induction e caller generalizing depth j with
  | step p ih =>
    by_cases hdisp : ∃ node, p.Dispatches e node
    · rcases hdisp with ⟨node, hd⟩
      obtain ⟨left, hleft⟩ : ∃ left, e.config.engine.maxSteps - p.made = left + 1 := by
        have hlt := hd.made_lt
        exact ⟨e.config.engine.maxSteps - p.made - 1, by omega⟩
      have honward : ((p.onward? e caller node).elim [] (dispatched e caller depth)).countP
          (fun d => d.depth = depth + j) ≤ left * e.config.engine.maxSteps ^ j := by
        cases hq : p.onward? e caller node with
        | none => exact Nat.zero_le _
        | some q =>
          have hle := ih q (.of_onward hd hq) depth j
          have hmade : e.config.engine.maxSteps - q.made = left := by
            rw [(calls_of_onward? hq).2]
            omega
          rw [hmade] at hle
          exact hle
      -- the node itself lies at this depth, and what it calls lies deeper
      have hnode : (⟨depth, p, node⟩ :: (p.called? e caller node).elim []
          (dispatched e caller (depth + 1))).countP (fun d => d.depth = depth + j) ≤
          e.config.engine.maxSteps ^ j := by
        cases j with
        | zero =>
          rw [List.countP_cons]
          cases hq : p.called? e caller node with
          | none => simp
          | some q =>
            have hzero := countP_eq_zero_of_lt e caller q (Nat.lt_succ_self depth)
            simp [hzero]
        | succ j =>
          rw [List.countP_cons_of_neg (by simp)]
          cases hq : p.called? e caller node with
          | none => exact Nat.zero_le _
          | some q =>
            have hle := ih q (.of_called hd hq) (depth + 1) j
            rw [(calls_of_called? hq).2, Nat.sub_zero, ← Nat.pow_succ', Nat.add_right_comm] at hle
            exact hle
      rw [dispatched_of_dispatches hd, ← List.cons_append, List.countP_append, hleft, Nat.succ_mul,
        Nat.add_comm]
      exact Nat.add_le_add honward hnode
    · rw [dispatched_of_not_dispatches hdisp]
      exact Nat.zero_le _

end Standing

/-- A list is as long as its parts of each depth together. -/
theorem Dispatch.length_eq_sum {l : List (Dispatch σ)} {n : Nat} (h : ∀ d ∈ l, d.depth < n) :
    l.length = ∑ k ∈ Finset.range n, l.countP fun d => d.depth = k := by
  induction l with
  | nil => simp
  | cons d l ih =>
    rw [List.forall_mem_cons] at h
    have hown : ∑ k ∈ Finset.range n, (if decide (d.depth = k) = true then 1 else 0) = 1 := by
      simp only [decide_eq_true_eq]
      rw [Finset.sum_ite_eq, if_pos (Finset.mem_range.2 h.1)]
    simp only [List.countP_cons, Finset.sum_add_distrib, hown]
    rw [List.length_cons, ih h.2]

namespace Engine

variable {e : Engine σ} {caller : Caller} {name : String} {args : Dict Json} {w : World σ}

/-- A walk is nested in at most as many calls as the settings allow. -/
theorem depth_le_of_mem_dispatched {d : Dispatch σ} (h : d ∈ e.dispatched caller name args w) :
    d.depth ≤ e.config.engine.maxCallDepth := by
  have hsum := (mem_dispatched_iff.1 h).2.2
  omega

/-- On each level at most a power of the limit of steps is dispatched. -/
theorem countP_dispatched_le (k : Nat) :
    (e.dispatched caller name args w).countP (fun d => d.depth = k) ≤
      e.config.engine.maxSteps ^ (k + 1) := by
  cases hb : e.bindArguments name args with
  | error cause =>
    rw [dispatched_of_error hb]
    exact Nat.zero_le _
  | ok bound =>
    rcases bound with ⟨d, region⟩
    rw [dispatched_of_ok hb, Nat.pow_succ']
    have hle := Standing.countP_dispatched_le e caller
      (.start e.config.engine.maxCallDepth d region w.hierarchy.active (w.begun caller.agent.id d)) 0 k
    rw [Nat.zero_add] at hle
    exact hle

/-- Whatever the playbooks call and wherever they recover, a run dispatches finitely many nodes. The log lists
them in order; they are the nodes of the standings of the run, each at the depth that the trace notes for it;
and there is a bound for their number at each call depth, none of them above the limit of nested calls, and so
for all of them together. -/
theorem dispatched_bounds (e : Engine σ) (caller : Caller) (name : String) (args : Dict Json)
    (w : World σ) :
    (e.run caller name args w).2.starts =
        w.starts ++ (e.dispatched caller name args w).map (Dispatch.event caller) ∧
      (∀ p node, e.Visited caller name args w p ∧ p.Dispatches e node ↔
        ⟨(Standing.entry e caller p node).callDepth, p, node⟩ ∈ e.dispatched caller name args w) ∧
      (∀ k, (e.dispatched caller name args w).countP (fun d => d.depth = k) ≤
        e.config.engine.maxSteps ^ (k + 1)) ∧
      (∀ d ∈ e.dispatched caller name args w,
        d.depth = (Standing.entry e caller d.standing d.node).callDepth ∧
          d.depth ≤ e.config.engine.maxCallDepth) ∧
      (e.dispatched caller name args w).length ≤
        ∑ k ∈ Finset.range (e.config.engine.maxCallDepth + 1), e.config.engine.maxSteps ^ (k + 1) := by
  have hdepth : ∀ (p : Standing σ) (node : Node), (Standing.entry e caller p node).callDepth =
      e.config.engine.maxCallDepth - p.calls := fun p _ => level_depth p.calls
  refine ⟨?_, ?_, countP_dispatched_le, ?_, ?_⟩
  · exact run_collects (collects_starts e caller) fun d _ => d.counts_starts e caller
  · intro p node
    rw [mem_dispatched_iff, hdepth]
    constructor
    · rintro ⟨hv, hd⟩
      exact ⟨hv, hd, Nat.sub_add_cancel (calls_le_of_visited hv)⟩
    · rintro ⟨hv, hd, _⟩
      exact ⟨hv, hd⟩
  · intro d hmem
    have hsum := (mem_dispatched_iff.1 hmem).2.2
    refine ⟨?_, depth_le_of_mem_dispatched hmem⟩
    rw [hdepth]
    omega
  · rw [Dispatch.length_eq_sum fun d hmem => Nat.lt_succ_of_le (depth_le_of_mem_dispatched hmem)]
    exact Finset.sum_le_sum fun k _ => countP_dispatched_le k

end Engine

/-! ## A maze -/

namespace Maze

/-- Calls itself, and goes back to that when the call fails. -/
def maze : Definition where
  graph := ⟨"maze", none, "again", [],
    [⟨"again", .invoke ⟨"maze", .empty, .inline, false, none, some "again", none, false⟩, none, []⟩]⟩
  sound := ⟨Schema.truthValues, by decide⟩

/-- Two steps in each walk, and one nested call. -/
def engine : Engine Unit where
  playbooks := (Registry.ofDefinitions [maze]).toOption.getD .empty
  config := { Config.default with engine := { EngineConfig.default with maxSteps := 2, maxCallDepth := 1 } }
  host := Outing.host
  schemas := Schema.truthValues
  tokens := String.length
  supply := Hierarchy.unary
  now := default

end Maze

-- the bounds are reached
example : (Maze.engine.run Outing.traveller "maze" .empty Outing.world).2.starts.length = 2 + 2 ^ 2 := by
  decide +kernel

end Playbook
