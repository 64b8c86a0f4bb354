import Playbook.Proofs.Run.Dispatches
import Playbook.Proofs.Run.Isolation

/-! # Cancellation

A run is cancelled while some call of the host is going on, at any call depth. The nodes in which that call
is made form a chain: the one at top level, the one of the walk that it calls, and so on. From then on no
walk dispatches anything: each walk of the chain stops behind its node, or has come to its end there.

Main statements: `Effects.recounts` says that the calls which a run has made account for whether it is
cancelled, `Standing.inProgress_chain` that the nodes in progress form a chain, `Standing.last_of_rest` that a
walk which is not stopped has come to its end, and `Engine.stops_of_cancelled` what that means for every run.
-/

namespace Playbook

variable {σ : Type} {e : Engine σ} {caller : Caller} {s : σ} {w w' : World σ}

/-! ## Moments -/

namespace Host

/-- The state of the host after some calls. -/
def after (host : Host σ) (s : σ) (is : List Interaction) : σ := is.foldl (fun s i => (host.react s i).2) s

/-- The run is cancelled during the call with this number. -/
def cancelsAt (host : Host σ) (s : σ) (is : List Interaction) (n : Nat) : Bool :=
  is[n]?.any fun i => (host.react (host.after s (is.take n)) i).1

theorem after_concat (host : Host σ) (s : σ) (is : List Interaction) (i : Interaction) :
    host.after s (is ++ [i]) = (host.react (host.after s is) i).2 :=
  List.foldl_concat ..

theorem cancelsAt_append {host : Host σ} {is : List Interaction} {n : Nat} (hn : n < is.length)
    (more : List Interaction) : host.cancelsAt s (is ++ more) n = host.cancelsAt s is n := by
  rw [cancelsAt, cancelsAt, List.getElem?_append_left hn, List.take_append_of_le_length (Nat.le_of_lt hn)]

theorem lt_of_cancelsAt {host : Host σ} {is : List Interaction} {n : Nat}
    (h : host.cancelsAt s is n = true) : n < is.length := by
  by_contra hle
  rw [cancelsAt, List.getElem?_eq_none (Nat.le_of_not_lt hle)] at h
  cases h

end Host

/-- The calls that were made account for the state of the host, and for every moment at which the run was
cancelled. -/
structure Recounts (e : Engine σ) (s : σ) (w : World σ) : Prop where
  host : w.host = e.host.after s w.interactions
  cancelled : ∀ n, e.host.cancelsAt s w.interactions n = true → w.cancelled = true

theorem Recounts.start (e : Engine σ) (s : σ) (hierarchy : Hierarchy) (drawn : Nat) (cancelled : Bool) :
    Recounts e s (.start s hierarchy drawn cancelled) where
  host := rfl
  cancelled := fun n hn => absurd (Host.lt_of_cancelsAt hn) (Nat.not_lt_zero n)

theorem Recounts.consulted (hr : Recounts e s w) {host : σ} {cancels : Bool} {i : Interaction}
    (hreact : e.host.react w.host i = (cancels, host)) : Recounts e s (w.consulted host cancels i) where
  host := by
    show host = e.host.after s (w.interactions ++ [i])
    rw [Host.after_concat, ← hr.host, hreact]
  cancelled := by
    intro n hn
    have hlt : n < (w.interactions ++ [i]).length := Host.lt_of_cancelsAt hn
    rw [List.length_append, List.length_singleton] at hlt
    show (w.cancelled || cancels) = true
    rcases Nat.lt_succ_iff_lt_or_eq.1 hlt with hold | rfl
    · -- an earlier moment
      have hbefore : e.host.cancelsAt s w.interactions n = true := by
        rw [← Host.cancelsAt_append hold [i]]
        exact hn
      rw [hr.cancelled n hbefore]
      rfl
    · have hnow : cancels = true := by
        have hcall : e.host.cancelsAt s (w.interactions ++ [i]) w.interactions.length = true := hn
        rw [Host.cancelsAt, List.take_left, ← hr.host, List.getElem?_concat_length] at hcall
        rw [Option.any_some, hreact] at hcall
        exact hcall
      rw [hnow, Bool.or_true]

/-- Calls are only added. -/
theorem Effects.interactions_grow {ok : Happening → Prop} (h : Effects e ok w w') :
    w.interactions <+: w'.interactions := by
  induction h with
  | refl => exact List.prefix_refl _
  | tail _ hlast ih =>
    cases hlast with
    | consulted host cancels i hreact => exact ih.trans (List.prefix_append _ [i])
    | _ => exact ih

theorem Effects.interactions_le {ok : Happening → Prop} (h : Effects e ok w w') :
    w.interactions.length ≤ w'.interactions.length :=
  h.interactions_grow.length_le

theorem Effects.recounts {ok : Happening → Prop} (h : Effects e ok w w') (hr : Recounts e s w) :
    Recounts e s w' := by
  induction h with
  | refl => exact hr
  | tail _ hlast ih =>
    cases hlast with
    | consulted host cancels i hreact => exact ih.consulted hreact
    | polled => exact ⟨ih.host, fun n hn => World.stops_eq_true (ih.cancelled n hn)⟩
    | _ => exact ⟨ih.host, ih.cancelled⟩

/-- Behind the moment a world is cancelled. -/
theorem Recounts.cancelled_of_lt (hr : Recounts e s w) {is : List Interaction}
    (hpre : w.interactions <+: is) {n : Nat} (hn : e.host.cancelsAt s is n = true)
    (hlt : n < w.interactions.length) : w.cancelled = true := by
  rcases hpre with ⟨more, rfl⟩
  rw [Host.cancelsAt_append hlt] at hn
  exact hr.cancelled n hn

/-! ## The world around a node -/

theorem Engine.carried_effects (e : Engine σ) (caller : Caller) :
    Carried e caller (Effects e Engine.Any) where
  refl := fun _ => .refl
  trans := .trans
  polled := fun _ => .single .polled
  opened := fun ratio label => (Engine.acts_open? ratio label).mono fun _ _ => trivial
  rejected := fun _ cause _ => (Engine.acts_reject cause).mono fun _ _ => trivial
  closed := fun id summarize _ => (Engine.acts_close id summarize).mono fun _ _ => trivial
  aborted := fun id => (Engine.acts_abort id).mono fun _ _ => trivial
  abortedAbove := fun id => Acts.aborting _ (.abortAbove id e.now) rfl (fun _ => trivial) fun _ _ => rfl

namespace Standing

variable {p q : Standing σ} {node : Node} {depth : Nat}

theorem rest_effects (e : Engine σ) (caller : Caller) (p : Standing σ) :
    Effects e Engine.Any p.world (p.rest e caller).2 :=
  Engine.acts_steps (Engine.calleesAct_level p.calls) _ _ _ _ _ _

theorem outcome_effects (e : Engine σ) (caller : Caller) (p : Standing σ) (node : Node) :
    Effects e Engine.Any p.world (p.outcome e caller node).2 := by
  have hannounced : Effect e Engine.Any p.world (p.announced caller node) := .published _ _ trivial
  have hacts : Acts e Engine.Any (e.dispatch caller (e.level caller p.calls) node p.frame) :=
    Engine.acts_dispatch (fun _ _ => trivial) (Engine.calleesAct_level p.calls)
  exact .head hannounced (hacts _)

/-- The walk that a node calls goes on while the node is dispatched. -/
theorem called_effects (hq : p.called? e caller node = some q) :
    Effects e Engine.Any p.world q.world ∧
      Effects e Engine.Any (q.rest e caller).2 (p.outcome e caller node).2 := by
  rcases called?_cases hq with ⟨c, hkind, _⟩
  rcases outcome_around (Engine.carried_effects e caller) hkind with ⟨hnone, _⟩ | ⟨q', hq', hbefore, hbehind⟩
  · rw [hq] at hnone
    cases hnone
  · cases hq.symm.trans hq'
    have hannounced : Effect e Engine.Any p.world (p.announced caller node) := .published _ _ trivial
    exact ⟨.head hannounced hbefore, hbehind⟩

/-- A walk goes on where its node has left the world, but for the note that it is done. -/
theorem onward?_world (hq : p.onward? e caller node = some q) :
    q.world.interactions = (p.outcome e caller node).2.interactions ∧
      q.world.cancelled = (p.outcome e caller node).2.cancelled ∧
      Effects e Engine.Any (p.outcome e caller node).2 q.world := by
  rcases onward?_cases hq with ⟨done, goal, w, hx, _, rfl⟩
  rw [hx]
  exact ⟨rfl, rfl, .head (.noted _) (.single (.published _ _ trivial))⟩

theorem rest_of_onward? (hd : p.Dispatches e node) (hq : p.onward? e caller node = some q) :
    p.rest e caller = q.rest e caller := by
  rcases onward?_cases hq with ⟨done, goal, w, hx, hgoal, rfl⟩
  rw [rest_of_dispatches hd, hx]
  simp only [hgoal]

/-- A walk that does not go on ends where its node has left the world. -/
theorem rest_of_onward?_none (hd : p.Dispatches e node) (hq : p.onward? e caller node = none) :
    (p.rest e caller).2.interactions = (p.outcome e caller node).2.interactions ∧
      Effects e Engine.Any (p.outcome e caller node).2 (p.rest e caller).2 := by
  rw [rest_of_dispatches hd]
  rw [onward?] at hq
  rcases hx : p.outcome e caller node with ⟨cause | done, w⟩
  · exact ⟨rfl, .refl⟩
  · rw [hx] at hq
    have hgoal : node.goal? done = none := Option.map_eq_none_iff.1 hq
    simp only [hgoal]
    exact ⟨rfl, .head (.noted _) (.single (.published _ _ trivial))⟩

theorem outcome_rest_effects (e : Engine σ) (caller : Caller) (hd : p.Dispatches e node) :
    Effects e Engine.Any (p.outcome e caller node).2 (p.rest e caller).2 := by
  cases hq : p.onward? e caller node with
  | none => exact (rest_of_onward?_none hd hq).2
  | some q =>
    rw [rest_of_onward? hd hq]
    exact (onward?_world hq).2.2.trans (rest_effects e caller q)

end Standing

/-- What is visited lies within the walk. -/
theorem Visits.effects {p q : Standing σ} (hv : Visits e caller p q) :
    Effects e Engine.Any p.world q.world ∧ Effects e Engine.Any (q.rest e caller).2 (p.rest e caller).2 := by
  induction hv using Relation.ReflTransGen.head_induction_on with
  | refl => exact ⟨.refl, .refl⟩
  | @head p r hnext _ ih =>
    rcases hnext.cases with ⟨node, hd, hq | hq⟩
    · obtain ⟨hbefore, hbehind⟩ := Standing.called_effects hq
      exact ⟨hbefore.trans ih.1, ih.2.trans (hbehind.trans (Standing.outcome_rest_effects e caller hd))⟩
    · have hbefore := (Standing.outcome_effects e caller p node).trans (Standing.onward?_world hq).2.2
      rw [Standing.rest_of_onward? hd hq]
      exact ⟨hbefore.trans ih.1, ih.2⟩

/-! ## Nodes in progress -/

namespace Dispatch

/-- The calls of the host that are made while the node is dispatched. -/
def calls (e : Engine σ) (caller : Caller) (d : Dispatch σ) : List Interaction :=
  (d.outcome e caller).2.interactions.drop d.standing.world.interactions.length

theorem interactions_outcome (e : Engine σ) (caller : Caller) (d : Dispatch σ) :
    (d.outcome e caller).2.interactions = d.standing.world.interactions ++ d.calls e caller := by
  obtain ⟨made, hmade⟩ := (Standing.outcome_effects e caller d.standing d.node).interactions_grow
  rw [calls, outcome, ← hmade, List.drop_left]

/-- The call with this number is made while the node is dispatched. -/
def InProgress (e : Engine σ) (caller : Caller) (n : Nat) (d : Dispatch σ) : Prop :=
  d.standing.world.interactions.length ≤ n ∧ n < (d.outcome e caller).2.interactions.length

instance (e : Engine σ) (caller : Caller) (n : Nat) (d : Dispatch σ) :
    Decidable (d.InProgress e caller n) :=
  inferInstanceAs (Decidable (_ ∧ _))

/-- The node is done, and selects no successor. -/
def EndsWalk (e : Engine σ) (caller : Caller) (d : Dispatch σ) : Prop :=
  ∃ f w, d.outcome e caller = (.ok (.proceed, f), w) ∧ d.node.successor? f.region = none

end Dispatch

/-- A node of the walk that another node calls. -/
def Dispatch.CalledBy (e : Engine σ) (caller : Caller) (d d' : Dispatch σ) : Prop :=
  d'.depth = d.depth + 1 ∧ ∃ q, d.standing.called? e caller d.node = some q ∧ Visits e caller q d'.standing

namespace Standing

variable {p q : Standing σ} {node : Node} {depth n : Nat}

/-- What is in progress is so during the walk. -/
theorem within_of_inProgress {d : Dispatch σ} (hmem : d ∈ p.dispatched e caller depth)
    (hprogress : d.InProgress e caller n) :
    p.world.interactions.length ≤ n ∧ n < (p.rest e caller).2.interactions.length := by
  obtain ⟨hvisits, hd, _⟩ := of_mem_dispatched hmem
  obtain ⟨hbefore, hbehind⟩ := hvisits.effects
  have hnode := (outcome_rest_effects e caller hd).interactions_le
  exact ⟨hbefore.interactions_le.trans hprogress.1,
    hprogress.2.trans_le (hnode.trans hbehind.interactions_le)⟩

/-- Either the call is made while the walk dispatches its node, or the walk has gone on before. -/
theorem inProgress_of_dispatches (hd : p.Dispatches e node) :
    ((p.dispatched e caller depth).filter fun d => d.InProgress e caller n) =
      if Dispatch.InProgress e caller n ⟨depth, p, node⟩ then
        ⟨depth, p, node⟩ :: ((p.called? e caller node).elim [] (dispatched e caller (depth + 1))).filter
          fun d => d.InProgress e caller n
      else
        ((p.onward? e caller node).elim [] (dispatched e caller depth)).filter
          fun d => d.InProgress e caller n := by
  rw [dispatched_of_dispatches hd, List.filter_cons, List.filter_append]
  simp only [decide_eq_true_eq]
  split
  · rename_i hnow
    -- the walk goes on only when the node is done
    have hnone : ((p.onward? e caller node).elim [] (dispatched e caller depth)).filter
        (fun d => d.InProgress e caller n) = [] := by
      rw [List.filter_eq_nil_iff]
      intro d hmem hprogress
      rcases mem_elim.1 hmem with ⟨q, hq, hmem⟩
      have hlater := (within_of_inProgress hmem (of_decide_eq_true hprogress)).1
      rw [(onward?_world hq).1] at hlater
      exact absurd hnow.2 (Nat.not_lt.2 hlater)
    rw [hnone, List.append_nil]
  · rename_i hnot
    -- and what it calls lies within it
    have hnone : ((p.called? e caller node).elim [] (dispatched e caller (depth + 1))).filter
        (fun d => d.InProgress e caller n) = [] := by
      rw [List.filter_eq_nil_iff]
      intro d hmem hprogress
      rcases mem_elim.1 hmem with ⟨q, hq, hmem⟩
      obtain ⟨hlow, hhigh⟩ := within_of_inProgress hmem (of_decide_eq_true hprogress)
      obtain ⟨hbefore, hbehind⟩ := called_effects hq
      exact hnot ⟨hbefore.interactions_le.trans hlow, hhigh.trans_le hbehind.interactions_le⟩
    rw [hnone, List.nil_append]

/-- Each node in progress is one of the walk that the node before it calls. -/
theorem inProgress_chain (e : Engine σ) (caller : Caller) (p : Standing σ) (depth n : Nat) :
    ((p.dispatched e caller depth).filter fun d => d.InProgress e caller n).IsChain
        (Dispatch.CalledBy e caller) ∧
      ∀ d ∈ ((p.dispatched e caller depth).filter fun d => d.InProgress e caller n).head?,
        d.depth = depth := by
  induction p using Standing.induction e caller generalizing depth with
  | step p ih =>
    by_cases hdisp : ∃ node, p.Dispatches e node
    · rcases hdisp with ⟨node, hd⟩
      rw [inProgress_of_dispatches hd]
      split
      · -- the dispatch is in progress, and so is at most one of its callee
        cases hq : p.called? e caller node with
        | none => exact ⟨.singleton _, fun d hhead => (Option.some.inj hhead) ▸ rfl⟩
        | some q =>
          obtain ⟨hchain, hhead⟩ := ih q (.of_called hd hq) (depth + 1)
          refine ⟨.cons hchain ?_, fun d hd' => (Option.some.inj hd') ▸ rfl⟩
          intro d hfirst
          have hmem := List.mem_of_mem_head? hfirst
          exact ⟨hhead d hfirst, q, hq, (of_mem_dispatched (List.mem_filter.1 hmem).1).1⟩
      · -- it has ended before, so what is in progress comes later in the walk
        cases hq : p.onward? e caller node with
        | none => exact ⟨.nil, fun d hhead => nomatch hhead⟩
        | some q => exact ih q (.of_onward hd hq) depth
    · rw [dispatched_of_not_dispatches hdisp]
      exact ⟨.nil, fun d hhead => nomatch hhead⟩

/-- Whatever call is made during a walk, some node of it is in progress then. -/
theorem inProgress_ne_nil (p : Standing σ) (depth n : Nat) (hlow : p.world.interactions.length ≤ n)
    (hhigh : n < (p.rest e caller).2.interactions.length) :
    ((p.dispatched e caller depth).filter fun d => d.InProgress e caller n) ≠ [] := by
  induction p using Standing.induction e caller generalizing depth with
  | step p ih =>
    by_cases hdisp : ∃ node, p.Dispatches e node
    · rcases hdisp with ⟨node, hd⟩
      rw [inProgress_of_dispatches hd]
      split
      · exact List.cons_ne_nil _ _
      · rename_i hnot
        -- the dispatch does not reach to `n`, so a later one has to
        have hlater : (p.outcome e caller node).2.interactions.length ≤ n := by
          by_contra hlt
          exact hnot ⟨hlow, Nat.lt_of_not_le hlt⟩
        cases hq : p.onward? e caller node with
        | none =>
          rw [(rest_of_onward?_none hd hq).1] at hhigh
          exact absurd hhigh (Nat.not_lt.2 hlater)
        | some q =>
          rw [rest_of_onward? hd hq] at hhigh
          rw [← (onward?_world hq).1] at hlater
          exact ih q (.of_onward hd hq) depth hlater hhigh
    · rw [rest_of_not_dispatches hdisp] at hhigh
      exact absurd hhigh (Nat.not_lt.2 hlow)

end Standing

/-! ## Walks that are not stopped -/

namespace Engine

variable {node : Node} {f f' : Frame}

/-- A call that was cancelled does not let its caller go on. -/
theorem cancelled_of_absorb {c : Call} {inline : Bool} {done : WalkEnd}
    (h : absorb c inline done f = .ok (.proceed, f')) : done.cancelled = false := by
  rcases absorb_cases h with ⟨_, hstep, _⟩ | ⟨hrunning, _⟩
  · cases hstep
  · exact hrunning

/-- An inline call that does not fail hands back its walk. -/
theorem callInline_ok {callee : Definition} {region : Region}
    {descend : Definition → Frame → Exec σ WalkEnd} {done : WalkEnd}
    (hx : e.callInline caller callee region descend f w = (.ok done, w')) :
    (descend callee (.start region f.thread) w).1 = .ok done := by
  rw [callInline_eq] at hx
  rcases Exec.bind_eq_ok.1 hx with ⟨r, w₁, hattempt, hrest⟩
  cases hattempt
  cases hr : (descend callee (.start region f.thread) w).1 with
  | ok done' =>
    rw [hr] at hrest
    cases hrest
    rfl
  | error cause =>
    rw [hr] at hrest
    rcases Exec.bind_eq_ok.1 hrest with ⟨_, _, _, hthrow⟩
    cases hthrow

/-- The frame of a walk that has ended, as its caller takes it over: as it is, or when the sessions that the walk
has left open and its own have been closed. -/
def HandsOver (e : Engine σ) (caller : Caller) (f f' : Frame) : Prop :=
  f' = f ∨ ∃ child summarize w f₁ w₁ w', e.closeAll caller f.sessions f w = (.ok f₁, w₁) ∧
    e.close caller child summarize f₁ w₁ = (.ok f', w')

end Engine

namespace Standing

variable {p q : Standing σ} {node : Node} {depth n : Nat}

/-- A node that leads on behind its call has taken over the end of the walk that it has called. -/
theorem absorbed_of_proceed (hq : p.called? e caller node = some q) {f : Frame}
    (hx : p.outcome e caller node = (.ok (.proceed, f), w')) :
    ∃ c inline done done', node.kind = .invoke c ∧ (q.rest e caller).1 = .ok done ∧ done.cancelled = false ∧
      e.HandsOver caller done.frame done'.frame ∧
      Engine.absorb c inline done' p.frame = .ok (.proceed, f) := by
  rcases called?_cases hq with ⟨c, hkind, hcallee⟩
  have hinvoke : e.invoke caller node c (e.level caller p.calls) p.frame (p.announced caller node) =
      (.ok (.proceed, f), w') := by
    rw [← hx]
    simp only [outcome, Engine.dispatch, hkind]
  have hcall := Engine.call_of_invoke_proceed hinvoke
  rcases callee?_cases hcallee with ⟨calls, callee, region, descend, hcalls, hp, hmode⟩
  obtain ⟨n, hn, rfl⟩ := Engine.descend_level (Engine.prepare_ok hp).2.1
  obtain rfl : n = calls := by omega
  -- inline, the callee hands over what its walk ends with; isolated, its sessions are closed before
  rcases hmode with ⟨hmode, rfl⟩ | ⟨hmode, child, w, ho, rfl⟩
  · rw [Engine.call_inline hp hmode] at hcall
    obtain ⟨done, w₁, hinline, habsorb⟩ := Exec.bind_eq_ok.1 hcall
    have hdone : Engine.absorb c true done p.frame = .ok (.proceed, f) := (Exec.ofExcept_eq_ok.1 habsorb).1
    rw [← walk_eq_rest]
    exact ⟨c, true, done, done, hkind, Engine.callInline_ok hinline, Engine.cancelled_of_absorb hdone, .inl rfl,
      hdone⟩
  · rw [Engine.call_isolated hp hmode] at hcall
    obtain ⟨r, w₁, hopen, hrest⟩ := Exec.bind_eq_ok.1 hcall
    rw [ho] at hopen
    cases hopen
    obtain ⟨done, w₂, hisolated, habsorb⟩ := Exec.bind_eq_ok.1 hrest
    have hdone : Engine.absorb c false done p.frame = .ok (.proceed, f) := (Exec.ofExcept_eq_ok.1 habsorb).1
    obtain ⟨done₁, w₃, f₂, w₄, hwalk, hc, hall, hclose⟩ :=
      Engine.callIsolated_ok hisolated (Engine.cancelled_of_absorb hdone)
    rw [← walk_eq_rest, hwalk]
    exact ⟨c, false, done₁, done, hkind, rfl, hc, .inr ⟨child, c.summarize, w₃, f₂, w₄, w₂, hall, hclose⟩, hdone⟩

/-- A node goes on by its successors only if the walk that it has called was not stopped. -/
theorem called_of_proceed (hq : p.called? e caller node = some q) {f : Frame}
    (hx : p.outcome e caller node = (.ok (.proceed, f), w')) :
    ∃ done, (q.rest e caller).1 = .ok done ∧ done.cancelled = false := by
  obtain ⟨_, _, done, _, _, hdone, hc, _⟩ := absorbed_of_proceed hq hx
  exact ⟨done, hdone, hc⟩

/-- A walk that finds the run cancelled stops. -/
theorem rest_of_cancelled (hc : p.world.cancelled = true) :
    p.rest e caller = (.ok ⟨p.frame, p.made, true⟩, p.world.polled e.host) :=
  Engine.steps_of_stops (World.stops_eq_true hc) _ _ _ _

/-- A walk that is not stopped, although the run is cancelled while one of its nodes is dispatched, has come to
its end with that node; and so has every walk that it has called there. -/
theorem last_of_rest (p : Standing σ) (depth : Nat) (hr : Recounts e s p.world) {is : List Interaction}
    (hpre : (p.rest e caller).2.interactions <+: is) (hn : e.host.cancelsAt s is n = true) {done : WalkEnd}
    (hdone : (p.rest e caller).1 = .ok done) (hc : done.cancelled = false) :
    ∀ d ∈ p.dispatched e caller depth, d.InProgress e caller n → d.EndsWalk e caller := by
  induction p using Standing.induction e caller generalizing depth done with
  | step p ih =>
    by_cases hdisp : ∃ node, p.Dispatches e node
    · rcases hdisp with ⟨node, hd⟩
      have hnode := outcome_effects e caller p node
      have hwithin := (outcome_rest_effects e caller hd).interactions_grow
      -- if the run is cancelled while the node is dispatched, the walk ends with it
      have hends : n < (p.outcome e caller node).2.interactions.length →
          Dispatch.EndsWalk e caller ⟨depth, p, node⟩ := by
        intro hlt
        have hflag : (p.outcome e caller node).2.cancelled = true :=
          (hnode.recounts hr).cancelled_of_lt (hwithin.trans hpre) hn hlt
        rw [rest_of_dispatches hd] at hdone
        rcases hx : p.outcome e caller node with ⟨cause | ⟨step, f⟩, w₁⟩
        · rw [hx] at hdone
          cases hdone
        · rw [hx] at hdone hflag
          cases hgoal : node.goal? (step, f) with
          | some goal =>
            simp only [hgoal] at hdone
            rw [rest_of_cancelled hflag] at hdone
            cases hdone
            cases hc
          | none =>
            simp only [hgoal] at hdone
            cases hdone
            cases step with
            | halt => cases hc
            | branch target => cases hgoal
            | proceed => exact ⟨f, w₁, hx, hgoal⟩
      rw [dispatched_of_dispatches hd]
      intro d hmem hprogress
      rw [List.mem_cons, List.mem_append, mem_elim, mem_elim] at hmem
      rcases hmem with rfl | ⟨q, hq, hmem⟩ | ⟨q, hq, hmem⟩
      · exact hends hprogress.2
      · rcases called_effects hq with ⟨hbefore, hbehind⟩
        have hlt : n < (p.outcome e caller node).2.interactions.length :=
          Nat.lt_of_lt_of_le (within_of_inProgress hmem hprogress).2 hbehind.interactions_le
        rcases hends hlt with ⟨f, w₁, hx, _⟩
        obtain ⟨done', hdone', hc'⟩ := called_of_proceed hq hx
        have hprefix := hbehind.interactions_grow.trans (hwithin.trans hpre)
        exact ih q (.of_called hd hq) (depth + 1) (hbefore.recounts hr) hprefix hdone' hc' d hmem hprogress
      · rw [rest_of_onward? hd hq] at hpre hdone
        have hrecounts := (onward?_world hq).2.2.recounts (hnode.recounts hr)
        exact ih q (.of_onward hd hq) depth hrecounts hpre hdone hc d hmem hprogress
    · rw [dispatched_of_not_dispatches hdisp]
      exact fun d hmem => absurd hmem List.not_mem_nil

end Standing

/-! ## Runs -/

namespace Engine

variable {name : String} {args : Dict Json}

/-- The nodes in progress while a call is made, the one at top level first. -/
def inProgress (e : Engine σ) (caller : Caller) (name : String) (args : Dict Json) (w : World σ) (n : Nat) :
    List (Dispatch σ) :=
  (e.dispatched caller name args w).filter fun d => d.InProgress e caller n

/-- The host is not called while a run cleans up. -/
theorem run_interactions (e : Engine σ) (caller : Caller) (name : String) (args : Dict Json) (w : World σ) :
    (e.run caller name args w).2.interactions =
      (e.start caller name args w.hierarchy.active w).2.interactions := by
  obtain ⟨whats, h, hworld, _⟩ := run_world e caller name args w
  rw [hworld]
  rfl

/-- The calls of a run begin with those that are made until a node is done. -/
theorem interactions_of_dispatched {d : Dispatch σ} (hmem : d ∈ e.dispatched caller name args w) :
    d.standing.world.interactions <+: (d.outcome e caller).2.interactions ∧
      (d.outcome e caller).2.interactions <+: (e.run caller name args w).2.interactions := by
  obtain ⟨⟨d₀, region, hb, hvisits⟩, hd, _⟩ := mem_dispatched_iff.1 hmem
  refine ⟨(Standing.outcome_effects e caller d.standing d.node).interactions_grow, ?_⟩
  have hnode := (Standing.outcome_rest_effects e caller hd).interactions_grow
  rw [run_interactions, start_eq_rest hb]
  exact hnode.trans hvisits.effects.2.interactions_grow

/-- A run hands back what its walk has collected, and completes unless its walk was stopped. -/
theorem start_of_run_ok {o : Outcome} (hrun : (e.run caller name args w).1 = .ok o) :
    ∃ done, (e.start caller name args w.hierarchy.active w).1 = .ok done ∧
      o.outputs = done.frame.outputs ∧ o.status = if done.cancelled then .cancelled else .completed := by
  rw [run_eq] at hrun
  rcases hs : e.start caller name args w.hierarchy.active w with ⟨cause | done, w₁⟩
  · rw [hs] at hrun
    simp only at hrun
    cases ha : w₁.hierarchy.abortRun w.hierarchy.active e.now <;> rw [ha] at hrun <;> cases hrun
  · rw [hs] at hrun
    refine ⟨done, rfl, ?_⟩
    cases hc : done.cancelled with
    | false =>
      simp only [hc, Bool.false_eq_true, if_false] at hrun
      cases hrun
      exact ⟨rfl, rfl⟩
    | true =>
      simp only [hc, if_true] at hrun
      cases ha : w₁.hierarchy.abortRun w.hierarchy.active e.now <;> rw [ha] at hrun <;> cases hrun
      exact ⟨rfl, rfl⟩

/-- Once a run is cancelled, nothing is dispatched any more. Let the run be cancelled while some call of the
host is going on. Then all nodes that the log tells of were dispatched before that call; the nodes in
progress form a chain of walks, each called by the one before; and the run ends as cancelled or fails, unless
all of them are done and select no successor. -/
theorem stops_of_cancelled (e : Engine σ) (caller : Caller) (name : String) (args : Dict Json) (host : σ)
    (hierarchy : Hierarchy) (drawn : Nat) (cancelled : Bool) {r : Except Error Outcome} {w' : World σ}
    (hrun : e.run caller name args (.start host hierarchy drawn cancelled) = (r, w')) {n : Nat}
    (hn : e.host.cancelsAt host w'.interactions n = true) :
    w'.starts = (e.dispatched caller name args (.start host hierarchy drawn cancelled)).map
        (Dispatch.event caller) ∧
      (∀ d ∈ e.dispatched caller name args (.start host hierarchy drawn cancelled),
        d.standing.world.interactions <+: w'.interactions ∧ d.standing.world.interactions.length ≤ n) ∧
      (∃ d rest, e.inProgress caller name args (.start host hierarchy drawn cancelled) n = d :: rest ∧
        d.depth = 0 ∧ (d :: rest).IsChain (Dispatch.CalledBy e caller)) ∧
      ((∃ cause, r = .error cause) ∨ (∃ o, r = .ok o ∧ o.status = .cancelled) ∨
        ∃ o, r = .ok o ∧ o.status = .completed ∧
          ∀ d ∈ e.inProgress caller name args (.start host hierarchy drawn cancelled) n,
            d.EndsWalk e caller) := by
  let w : World σ := .start host hierarchy drawn cancelled
  have hwalked : (e.start caller name args w.hierarchy.active w).2.interactions = w'.interactions := by
    rw [← run_interactions, hrun]
  have hlt := Host.lt_of_cancelsAt hn
  cases hb : e.bindArguments name args with
  | error cause =>
    -- without a walk there is no call
    rw [start_of_error hb] at hwalked
    rw [← hwalked] at hlt
    exact absurd hlt (Nat.not_lt_zero n)
  | ok bound =>
    rcases bound with ⟨d₀, region⟩
    let p := Standing.start e.config.engine.maxCallDepth d₀ region hierarchy.active (w.begun caller.agent.id d₀)
    have hlist : e.dispatched caller name args w = p.dispatched e caller 0 := dispatched_of_ok hb
    have hrest : e.start caller name args w.hierarchy.active w = p.rest e caller := start_eq_rest hb _ _
    rw [hrest] at hwalked
    have hfirst : Recounts e host w := .start e host hierarchy drawn cancelled
    have hp : Recounts e host p.world := ⟨hfirst.host, hfirst.cancelled⟩
    refine ⟨?_, ?_, ?_, ?_⟩
    · have hstarts := run_collects (collects_starts e caller)
        fun d (_ : d ∈ e.dispatched caller name args w) => d.counts_starts e caller
      rw [hrun] at hstarts
      exact hstarts
    · intro d hmem
      obtain ⟨hbefore, hbehind⟩ := interactions_of_dispatched hmem
      rw [hrun] at hbehind
      have hall : d.standing.world.interactions <+: w'.interactions := hbefore.trans hbehind
      refine ⟨hall, ?_⟩
      rw [hlist] at hmem
      obtain ⟨hvisits, hd, _⟩ := Standing.of_mem_dispatched hmem
      by_contra hle
      have hflag := (hvisits.effects.1.recounts hp).cancelled_of_lt hall hn (Nat.lt_of_not_le hle)
      rw [World.cancelled_of_not_stops hd.running] at hflag
      cases hflag
    · rw [inProgress, hlist]
      obtain ⟨hchain, hhead⟩ := Standing.inProgress_chain e caller p 0 n
      have hsome : ((p.dispatched e caller 0).filter fun d => d.InProgress e caller n) ≠ [] :=
        Standing.inProgress_ne_nil p 0 n (Nat.zero_le n) (by rw [hwalked]; exact hlt)
      rcases hl : (p.dispatched e caller 0).filter fun d => d.InProgress e caller n with _ | ⟨d, rest⟩
      · exact absurd hl hsome
      · rw [hl] at hchain hhead
        exact ⟨d, rest, hl, hhead d rfl, hchain⟩
    · cases r with
      | error cause => exact .inl ⟨cause, rfl⟩
      | ok o =>
        cases hstatus : o.status with
        | cancelled => exact .inr (.inl ⟨o, rfl, hstatus⟩)
        | completed =>
          have hok : (e.run caller name args w).1 = .ok o := by rw [hrun]
          obtain ⟨done, hdone, _, hends⟩ := start_of_run_ok hok
          have hc : done.cancelled = false := by
            rw [hstatus] at hends
            cases hc : done.cancelled with
            | false => rfl
            | true =>
              rw [hc] at hends
              cases hends
          rw [hrest] at hdone
          refine .inr (.inr ⟨o, rfl, hstatus, ?_⟩)
          intro d hmem
          rw [inProgress, hlist, List.mem_filter, decide_eq_true_eq] at hmem
          have hpre : (p.rest e caller).2.interactions <+: w'.interactions := by rw [hwalked]
          exact Standing.last_of_rest p 0 hp hpre hn hdone hc d hmem.1 hmem.2

end Engine

/-! ## A hike that is broken off -/

/-- The tours of a user who breaks off the run while a tool is looked for in vain. -/
def Tour.interrupted : Engine Unit :=
  { engine with
    host := { host with useTool := fun _ _ name _ => ⟨.error (.toolNotFound name), true, ()⟩ } }

/-- The slip fails and the hike has a way home, but nobody goes there any more. -/
theorem Tour.hike_stops :
    ∃ o w', Tour.interrupted.run Outing.traveller "hike" .empty Outing.world = (.ok o, w') ∧
      Tour.interrupted.host.cancelsAt () w'.interactions 1 = true ∧ o.status = .cancelled ∧
      (∀ d ∈ Tour.interrupted.dispatched Outing.traveller "hike" .empty Outing.world,
        d.standing.world.interactions.length ≤ 1) ∧
      ∃ d rest, Tour.interrupted.inProgress Outing.traveller "hike" .empty Outing.world 1 = d :: rest ∧
        d.depth = 0 := by
  have hcancelled : (Tour.interrupted.run Outing.traveller "hike" .empty Outing.world).1.toOption.map
      Outcome.status = some .cancelled := by decide +kernel
  have hn : Tour.interrupted.host.cancelsAt ()
      (Tour.interrupted.run Outing.traveller "hike" .empty Outing.world).2.interactions 1 = true := by
    decide +kernel
  rcases hrun : Tour.interrupted.run Outing.traveller "hike" .empty Outing.world with ⟨cause | o, w'⟩
  · rw [hrun] at hcancelled
    cases hcancelled
  · rw [hrun] at hcancelled hn
    rcases Engine.stops_of_cancelled Tour.interrupted Outing.traveller "hike" .empty () _ _ _ hrun hn with
      ⟨_, hbefore, ⟨d, rest, hprogress, hdepth, _⟩, _⟩
    exact ⟨o, w', rfl, hn, Option.some.inj hcancelled, fun d hd => (hbefore d hd).2, d, rest, hprogress,
      hdepth⟩

example : (Tour.interrupted.run Outing.traveller "hike" .empty Outing.world).2.starts.map (·.what) =
    [.nodeStarted "hike" "climb" 1, .nodeStarted "slip" "ask" 1, .nodeStarted "slip" "look" 2] := by
  decide +kernel

end Playbook
