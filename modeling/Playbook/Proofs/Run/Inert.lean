import Playbook.Proofs.Node
import Playbook.Proofs.Run.Cancellation
import Playbook.Proofs.Run.Coupled

/-! # Keys that no node reads

A playbook reads its region only under the keys that its nodes name as their reads. Two walks whose regions
differ under another key do the same in the same world, step by step: no text, no argument of a tool or of a
callee and no condition can tell them apart, and what they write is written to both.

Main statements: `Engine.dispatch_coupled` says so of one node, `Engine.steps_coupled` and
`Standing.dispatched_agree` of walks, and `Engine.inert_of_run` of runs whose arguments differ so.
-/

namespace Playbook

open Checked (Matches)
open Exec (Coupled)

variable {σ : Type} {e : Engine σ} {caller : Caller} {node : Node} {key : String} {r r' : Region}
  {f f' : Frame}

/-! ## Regions and frames -/

/-- The regions have the same values under all other keys. -/
def Region.AgreeOff (key : String) (r r' : Region) : Prop := ∀ k, k ≠ key → r'.get? k = r.get? k

namespace Region.AgreeOff

theorem refl (key : String) (r : Region) : r.AgreeOff key r := fun _ _ => rfl

/-- Regions that agree off a key agree on keys among which it is not. -/
theorem agreeOn (h : r.AgreeOff key r') {keys : List String} (hkey : key ∉ keys) : AgreeOn keys r r' := by
  intro k hk
  refine h k ?_
  rintro rfl
  exact hkey hk

/-- What is written is written to both. -/
theorem insert (h : r.AgreeOff key r') (k : String) (value : Json) :
    Matches (AgreeOff key) (r.insert k value) (r'.insert k value) := by
  rw [Region.insert, Region.insert]
  split
  · exact .error _
  · refine .ok ?_
    intro x hx
    have hrest := h x hx
    simp only [Region.get?, Dict.get?_insert] at hrest ⊢
    rw [hrest]

end Region.AgreeOff

/-- The frames differ at most in the value that one key has in their regions. -/
def Frame.AgreeOff (key : String) (f f' : Frame) : Prop :=
  ∃ r', f.region.AgreeOff key r' ∧ f' = { f with region := r' }

/-- So do the frames behind two steps of a kind. -/
def Frame.StepAgreeOff (key : String) (a b : Step × Frame) : Prop := b.1 = a.1 ∧ a.2.AgreeOff key b.2

namespace Frame.AgreeOff

/-- The same value under the same key leaves frames in agreement, or is refused by both. -/
theorem write (h : f.AgreeOff key f') (k : String) (value : Json) :
    Matches (AgreeOff key) (f.write k value) (f'.write k value) := by
  obtain ⟨r', hr, rfl⟩ := h
  exact (hr.insert k value).map fun _ s' hs => ⟨s', hs, rfl⟩

/-- The output of a callee is handed over to both. -/
theorem propagate (h : f.AgreeOff key f') (propagates : Bool) (outputs : List Contribution) :
    AgreeOff key (if propagates then { f with outputs := f.outputs ++ outputs } else f)
      (if propagates then { f' with outputs := f'.outputs ++ outputs } else f') := by
  obtain ⟨r', hr, rfl⟩ := h
  split
  · exact ⟨r', hr, rfl⟩
  · exact ⟨r', hr, rfl⟩

end Frame.AgreeOff

/-! ## Nodes -/

namespace Engine

/-- A rejection leaves the same mark in both frames. -/
theorem reject_coupled (cause : Error) (h : f.AgreeOff key f') :
    Coupled Eq (Frame.AgreeOff key) (reject (σ := σ) caller node cause f)
      (reject caller node cause f') :=
  .bind (.ofExcept (h.write errorKey _)) fun _ _ hf => .after _ fun _ => .pure hf

theorem complete_coupled (e : Engine σ) (caller : Caller) (id : ThreadId) (text : Option String)
    (h : f.AgreeOff key f') :
    Coupled Eq (Frame.AgreeOff key) (e.complete caller id text f) (e.complete caller id text f') := by
  obtain ⟨r', hr, rfl⟩ := h
  exact .after _ fun _ => .after _ fun _ => .after _ fun _ => .pure ⟨r', hr, rfl⟩

/-- Closing a session reads nothing in the region. -/
theorem close_coupled (id : ThreadId) (summarize : Bool) (h : f.AgreeOff key f') :
    Coupled Eq (Frame.AgreeOff key) (e.close caller id summarize f)
      (e.close caller id summarize f') := by
  cases summarize with
  | false => exact complete_coupled e caller id none h
  | true =>
    have hcomplete := fun text => complete_coupled e caller id (some text) h
    obtain ⟨r', hr, rfl⟩ := h
    refine .after (Exec.attempt (e.chronicle caller id f.thread)) fun result => ?_
    cases result with
    | ok text => exact hcomplete text
    | error cause => exact .after _ fun _ => .throw cause

/-- A prompt that does not refer to the key is the same for both. -/
theorem generate_coupled {g : Generate} (hkey : key ∉ Template.references g.prompt)
    (h : f.AgreeOff key f') :
    Coupled Eq (Frame.AgreeOff key) (e.generate caller g f) (e.generate caller g f') := by
  obtain ⟨r', hr, rfl⟩ := h
  simp only [generate, Template.render_eq (hr.agreeOn hkey)]
  exact .after _ fun prompt => .after _ fun v =>
    .ofExcept (Frame.AgreeOff.write ⟨r', hr, rfl⟩ g.outputKey v)

/-- The arguments of a tool that do not refer to the key are the same for both. -/
theorem useTool_coupled {t : ToolCall} (hkey : key ∉ Template.argReferences t.args)
    (h : f.AgreeOff key f') : Coupled Eq (Frame.AgreeOff key) (e.useTool caller t f) (e.useTool caller t f') := by
  obtain ⟨r', hr, rfl⟩ := h
  simp only [useTool, Template.resolveArgs_eq (hr.agreeOn hkey)]
  exact .after _ fun args => .after _ fun content =>
    .ofExcept (Frame.AgreeOff.write ⟨r', hr, rfl⟩ t.outputKey _)

/-- An emission that does not refer to the key is the same for both. -/
theorem emit_coupled {source : String} (hkey : key ∉ Template.references source)
    (h : f.AgreeOff key f') :
    Coupled Eq (Frame.AgreeOff key) (e.emit caller node source f) (e.emit caller node source f') := by
  obtain ⟨r', hr, rfl⟩ := h
  simp only [emit, Template.render_eq (hr.agreeOn hkey)]
  refine .after _ fun content => .after _ fun _ => .after _ fun _ => ?_
  exact .after _ fun _ => .after _ fun _ => .after _ fun _ => .pure ⟨r', hr, rfl⟩

/-- A thought that does not refer to the key is the same for both. -/
theorem reflect_coupled {source : String} (hkey : key ∉ Template.references source)
    (h : f.AgreeOff key f') :
    Coupled Eq (Frame.AgreeOff key) (e.reflect caller source f) (e.reflect caller source f') := by
  obtain ⟨r', hr, rfl⟩ := h
  simp only [reflect, Template.render_eq (hr.agreeOn hkey)]
  exact .after _ fun content => .after _ fun _ => .pure ⟨r', hr, rfl⟩

/-- A recording that does not refer to the key is the same for both. -/
theorem record_coupled {isTop : Bool} {s : Recording} (hkey : key ∉ Template.references s.content)
    (h : f.AgreeOff key f') :
    Coupled Eq (Frame.AgreeOff key) (e.record caller node isTop s f)
      (e.record caller node isTop s f') := by
  obtain ⟨r', hr, rfl⟩ := h
  simp only [record, Template.render_eq (hr.agreeOn hkey)]
  refine .after _ fun content => .after _ fun _ => ?_
  split
  · exact .pure ⟨r', hr, rfl⟩
  · exact .pure ⟨r', hr, rfl⟩

/-- Entering a session reads nothing in the region. -/
theorem enterSession_coupled (o : Opening) (h : f.AgreeOff key f') :
    Coupled Eq (Frame.AgreeOff key) (e.enterSession caller node o f)
      (e.enterSession caller node o f') := by
  obtain ⟨r', hr, rfl⟩ := h
  refine .after (e.open? caller o.windowRatio o.label) fun result => ?_
  cases result with
  | ok id => exact .pure ⟨r', hr, rfl⟩
  | error cause => exact reject_coupled cause ⟨r', hr, rfl⟩

/-- Leaving a session reads nothing in the region. -/
theorem leaveSession_coupled {isTop : Bool} (summarize : Bool) (h : f.AgreeOff key f') :
    Coupled Eq (Frame.AgreeOff key) (e.leaveSession caller node isTop summarize f)
      (e.leaveSession caller node isTop summarize f') := by
  obtain ⟨r', hr, rfl⟩ := h
  rcases f with ⟨region, outputs, thread, _ | ⟨_ | id, rest⟩⟩
  · -- the walk has entered no session that it could leave
    simp only [leaveSession]
    split
    · refine .after _ fun h => .after _ fun t => ?_
      split
      · exact reject_coupled _ ⟨r', hr, rfl⟩
      · exact close_coupled t.id summarize ⟨r', hr, rfl⟩
    · exact reject_coupled _ ⟨r', hr, rfl⟩
  · exact .pure ⟨r', hr, rfl⟩
  · exact close_coupled id summarize ⟨r', hr, rfl⟩

/-! ## Calls -/

/-- A call takes nothing from the region but its arguments. -/
theorem prepare_eq (e : Engine σ) {c : Call} (level : Level σ) (hkey : key ∉ Template.argReferences c.args)
    (h : f.AgreeOff key f') : e.prepare c level f' = e.prepare c level f := by
  obtain ⟨r', hr, rfl⟩ := h
  simp only [prepare, Template.resolveArgs_eq (hr.agreeOn hkey)]

/-- What a walk keeps of a call does not depend on the key. -/
theorem absorb_matches (c : Call) (inline : Bool) (done : WalkEnd) (h : f.AgreeOff key f') :
    Matches (Frame.StepAgreeOff key) (absorb c inline done f) (absorb c inline done f') := by
  obtain ⟨r', hr, rfl⟩ := h
  simp only [absorb]
  split
  · exact .ok ⟨rfl, r', hr, rfl⟩
  · -- the frames that are gone back to differ in the same place, and so after both writes
    have hback : Frame.AgreeOff key
        { f with
          thread := if inline then done.frame.thread else f.thread
          sessions := done.frame.sessions ++ f.sessions }
        { f with
          region := r'
          thread := if inline then done.frame.thread else f.thread
          sessions := done.frame.sessions ++ f.sessions } := ⟨r', hr, rfl⟩
    cases c.outputKey with
    | none => exact .ok ⟨rfl, hback.propagate _ _⟩
    | some k => exact (hback.write k _).bind fun _ _ hg => .ok ⟨rfl, hg.propagate _ _⟩

/-- A call whose arguments do not refer to the key goes the same way for both. -/
theorem call_coupled {c : Call} {level : Level σ} (hkey : key ∉ Template.argReferences c.args)
    (h : f.AgreeOff key f') :
    Coupled Eq (Frame.StepAgreeOff key) (e.call caller node c level f)
      (e.call caller node c level f') := by
  -- the arguments do not read the key, so both calls prepare the same walk
  have hprepare := prepare_eq e level hkey h
  cases hp : e.prepare c level f with
  | error cause =>
    rw [call_of_error hp, call_of_error (hprepare.trans hp)]
    exact .throw cause
  | ok prepared =>
    rcases prepared with ⟨callee, region, descend⟩
    cases hm : c.mode with
    | inline =>
      rw [call_inline hp hm, call_inline (hprepare.trans hp) hm]
      have habsorb := fun done => absorb_matches c true done h
      obtain ⟨r', hr, rfl⟩ := h
      exact .after (e.callInline caller callee region descend f) fun done => .ofExcept (habsorb done)
    | isolated =>
      rw [call_isolated hp hm, call_isolated (hprepare.trans hp) hm]
      refine .after _ fun result => ?_
      cases result with
      | error cause => exact (reject_coupled cause h).bind fun _ _ hf => .pure ⟨rfl, hf⟩
      | ok child => exact .after _ fun done => .ofExcept (absorb_matches c false done h)

/-- So does what the node makes of its failure. -/
theorem invoke_coupled {c : Call} {level : Level σ} (hkey : key ∉ Template.argReferences c.args)
    (h : f.AgreeOff key f') :
    Coupled Eq (Frame.StepAgreeOff key) (e.invoke caller node c level f)
      (e.invoke caller node c level f') := by
  rw [invoke, invoke]
  cases c.onFailure with
  | none => exact call_coupled hkey h
  | some target =>
    refine (call_coupled hkey h).attempt.bind ?_
    rintro _ _ (cause | hdone)
    · exact .bind (.ofExcept (h.write errorKey _)) fun _ _ hf => .pure ⟨rfl, hf⟩
    · exact .pure hdone

/-- A node that does not read the key does the same. -/
theorem dispatch_coupled (e : Engine σ) (caller : Caller) (level : Level σ) (hkey : key ∉ node.reads)
    (h : f.AgreeOff key f') :
    Coupled Eq (Frame.StepAgreeOff key) (e.dispatch caller level node f)
      (e.dispatch caller level node f') := by
  have hreads := Node.not_mem_kindReads hkey
  have hproceed : ∀ {x y : Exec σ Frame}, Coupled Eq (Frame.AgreeOff key) x y →
      Coupled Eq (Frame.StepAgreeOff key) (x >>= fun f => pure (Step.proceed, f))
        (y >>= fun f => pure (Step.proceed, f)) :=
    fun hxy => hxy.bind fun _ _ hf => .pure ⟨rfl, hf⟩
  rw [dispatch, dispatch]
  generalize node.kind = kind at hreads ⊢
  cases kind with
  | generate g => exact hproceed (generate_coupled hreads h)
  | invokeTool t => exact hproceed (useTool_coupled hreads h)
  | emit content => exact hproceed (emit_coupled hreads h)
  | reflect content => exact hproceed (reflect_coupled hreads h)
  | record s => exact hproceed (record_coupled hreads h)
  | pass => exact hproceed (.pure h)
  | invoke c => exact invoke_coupled hreads h
  | enterSession o => exact hproceed (enterSession_coupled o h)
  | leaveSession summarize => exact hproceed (leaveSession_coupled summarize h)

end Engine

/-! ## Walks -/

/-- The ends of two walks differ at most in the value that one key has in their regions. -/
def WalkEnd.AgreeOff (key : String) (a b : WalkEnd) : Prop :=
  ∃ f', a.frame.AgreeOff key f' ∧ b = { a with frame := f' }

/-- The node leads both walks to the same place. -/
theorem Node.goal?_agree {a b : Step × Frame} (hkey : key ∉ node.reads)
    (h : Frame.StepAgreeOff key a b) : node.goal? b = node.goal? a := by
  rcases a with ⟨step, f⟩
  rcases b with ⟨step', f'⟩
  obtain ⟨hstep, r', hr, hf⟩ := h
  cases hstep
  cases hf
  cases step with
  | proceed => exact Node.successor?_eq (hr.agreeOn hkey)
  | branch target => rfl
  | halt => rfl

namespace Engine

/-- No node reads the key, so the walks stay side by side to their end. -/
theorem steps_coupled (level : Level σ) {d : Definition} (hkey : ∀ n ∈ d.graph.nodes, key ∉ n.reads)
    (left made : Nat) (id : String) (h : f.AgreeOff key f') :
    Coupled Eq (WalkEnd.AgreeOff key) (e.steps caller level d left made id f)
      (e.steps caller level d left made id f') := by
  induction left generalizing made id f f' with
  | zero =>
    rw [steps, steps]
    refine .after _ fun cancelled => ?_
    cases cancelled with
    | true => exact .pure ⟨f', h, rfl⟩
    | false => exact .throw _
  | succ left ih =>
    rw [steps, steps]
    refine .after _ fun cancelled => ?_
    cases cancelled with
    | true => exact .pure ⟨f', h, rfl⟩
    | false =>
      cases hnode : d.node? id with
      | none => exact .throw _
      | some node =>
        have hunread := hkey node (Definition.node_mem hnode)
        refine .after _ fun _ => (dispatch_coupled e caller level hunread h).bind ?_
        intro a b hab
        refine .after _ fun _ => .after _ fun _ => ?_
        have hgoal := Node.goal?_agree hunread hab
        rcases a with ⟨step, g⟩
        rcases b with ⟨step', g'⟩
        obtain ⟨hstep, hg⟩ := hab
        cases hstep
        cases step with
        | halt => exact .pure ⟨g', hg, rfl⟩
        | branch target => exact ih (made + 1) target hg
        | proceed =>
          -- a node leads on by what it reads
          have hnext : node.successor? g'.region = node.successor? g.region := hgoal
          simp only [hnext]
          cases node.successor? g.region with
          | none => exact .pure ⟨g', hg, rfl⟩
          | some next => exact ih (made + 1) next hg

/-- The walks stay side by side whatever they call. -/
theorem walk_coupled (calls : Nat) {d : Definition} (hkey : ∀ n ∈ d.graph.nodes, key ∉ n.reads)
    (h : f.AgreeOff key f') :
    Coupled Eq (WalkEnd.AgreeOff key) (e.walk caller calls d f) (e.walk caller calls d f') := by
  cases calls with
  | zero => exact steps_coupled _ hkey _ _ _ h
  | succ calls => exact steps_coupled _ hkey _ _ _ h

end Engine

namespace Standing

variable {p q : Standing σ}

/-- The walks stand at the same place, in the same world, and differ at most in the value that one key has in
their regions. -/
def AgreeOff (key : String) (p q : Standing σ) : Prop :=
  ∃ f', p.frame.AgreeOff key f' ∧ q = { p with frame := f' }

theorem AgreeOff.refl (key : String) (p : Standing σ) : p.AgreeOff key p :=
  ⟨p.frame, ⟨p.frame.region, .refl key _, rfl⟩, rfl⟩

/-- The node does the same in both walks. -/
theorem outcome_agree (e : Engine σ) (caller : Caller) (hkey : key ∉ node.reads) (h : p.AgreeOff key q) :
    (q.outcome e caller node).2 = (p.outcome e caller node).2 ∧
      Matches (Frame.StepAgreeOff key) (p.outcome e caller node).1 (q.outcome e caller node).1 := by
  obtain ⟨f', hf, rfl⟩ := h
  obtain ⟨hworld, hresult⟩ := Engine.dispatch_coupled e caller (e.level caller p.calls) hkey hf
    (p.announced caller node) _ rfl
  exact ⟨hworld.symm, hresult⟩

/-- The node leads both walks on, or neither. -/
theorem onward?_agree (e : Engine σ) (caller : Caller) (hkey : key ∉ node.reads) (h : p.AgreeOff key q) :
    Option.Rel (AgreeOff key) (p.onward? e caller node) (q.onward? e caller node) := by
  obtain ⟨hworld, hresult⟩ := outcome_agree e caller hkey h
  rw [onward?, onward?]
  rcases hx : p.outcome e caller node with ⟨r, w⟩
  rcases hy : q.outcome e caller node with ⟨r', w'⟩
  rw [hx, hy] at hworld hresult
  cases hworld
  cases hresult with
  | error cause => exact .none
  | @ok a b hab =>
    -- no condition reads the key, so both go on to the same node
    simp only [Node.goal?_agree hkey hab]
    cases node.goal? a with
    | none => exact .none
    | some goal =>
      obtain ⟨f', _, rfl⟩ := h
      exact .some ⟨b.2, hab.2, rfl⟩

/-- The node calls the same walk. -/
theorem called?_agree (e : Engine σ) (caller : Caller) (hkey : key ∉ node.reads) (h : p.AgreeOff key q) :
    q.called? e caller node = p.called? e caller node := by
  have hreads := Node.not_mem_kindReads hkey
  obtain ⟨f', hf, rfl⟩ := h
  rw [called?, called?]
  generalize node.kind = kind at hreads ⊢
  cases kind with
  | invoke c =>
    have hprepare := Engine.prepare_eq e (e.level caller p.calls) hreads hf
    obtain ⟨r', hr, rfl⟩ := hf
    simp only [callee?, hprepare]
    rfl
  | _ => rfl

end Standing

/-- The node is dispatched at the same place, in the same world, and the walks differ at most in the value
that one key has in their regions. -/
def Dispatch.AgreeOff (key : String) (d d' : Dispatch σ) : Prop :=
  ∃ p', d.standing.AgreeOff key p' ∧ d' = { d with standing := p' }

theorem Dispatch.AgreeOff.refl (key : String) (d : Dispatch σ) : d.AgreeOff key d :=
  ⟨d.standing, .refl key _, rfl⟩

namespace Standing

variable {p q : Standing σ}

/-- No node reads the key, so both walks dispatch the same nodes, in the same order and in the same worlds. -/
theorem dispatched_agree (p : Standing σ) (depth : Nat)
    (hkey : ∀ n ∈ p.playbook.graph.nodes, key ∉ n.reads) (h : p.AgreeOff key q) :
    List.Forall₂ (Dispatch.AgreeOff key) (p.dispatched e caller depth) (q.dispatched e caller depth) := by
  induction p using Standing.induction e caller generalizing q with
  | step p ih =>
    by_cases hdisp : ∃ node, p.Dispatches e node
    · rcases hdisp with ⟨node, hd⟩
      -- what is called is the same on both sides, and what follows still differs in the key alone
      have hunread := hkey node (Definition.node_mem hd.node_eq)
      have hd' : q.Dispatches e node := by
        obtain ⟨f', _, rfl⟩ := h
        exact ⟨hd.running, hd.made_lt, hd.node_eq⟩
      have hcalled := called?_agree e caller hunread h
      have honward := onward?_agree e caller hunread h
      rw [dispatched_of_dispatches hd, dispatched_of_dispatches hd', hcalled]
      refine .cons ⟨q, h, rfl⟩ (List.rel_append ?_ ?_)
      · exact List.forall₂_same.2 fun d _ => .refl key d
      · generalize hp : p.onward? e caller node = o, q.onward? e caller node = o' at honward
        cases honward with
        | none => exact .nil
        | @some p₁ q₁ h₁ =>
          have hplaybook : p₁.playbook = p.playbook := by
            rcases onward?_cases hp with ⟨done, goal, w, _, _, rfl⟩
            rfl
          exact ih p₁ (.of_onward hd hp) (hplaybook ▸ hkey) h₁
    · have hdisp' : ¬ ∃ node, q.Dispatches e node := by
        obtain ⟨f', _, rfl⟩ := h
        rintro ⟨node, hd⟩
        exact hdisp ⟨node, hd.running, hd.made_lt, hd.node_eq⟩
      rw [dispatched_of_not_dispatches hdisp, dispatched_of_not_dispatches hdisp']
      exact .nil

end Standing

/-! ## Runs -/

/-- The outcomes differ at most in the value that one key has in their regions. -/
def Outcome.AgreeOff (key : String) (o o' : Outcome) : Prop :=
  ∃ f', o.frame.AgreeOff key f' ∧ o' = { o with frame := f' }

theorem Outcome.AgreeOff.last? {o o' : Outcome} (h : o.AgreeOff key o') (hkey : key ≠ defaultOutputKey) :
    o'.last? = o.last? := by
  obtain ⟨_, ⟨r', hr, rfl⟩, rfl⟩ := h
  exact hr defaultOutputKey hkey.symm

namespace Engine

variable {name : String} {args args' : Dict Json}

/-- The bound arguments differ at most in the value that one key has, which no node of the playbook reads. -/
def BoundOff (key : String) (a b : Definition × Region) : Prop :=
  b.1 = a.1 ∧ a.2.AgreeOff key b.2 ∧ ∀ n ∈ a.1.graph.nodes, key ∉ n.reads

/-- Accepted arguments are the region of a run. -/
theorem bindArguments_eq {d : Definition} (hd : e.playbooks.get? name = some d) (args : Dict Json) :
    e.bindArguments name args =
      match d.checkArguments args.keys with
      | .error reason => .error (.argumentMismatch d.name reason)
      | .ok () => .ok (d, ⟨args⟩) := by
  rw [bindArguments, Registry.require_eq_ok hd]
  show (match d.checkArguments args.keys with
    | .error reason => Except.error (Error.argumentMismatch d.name reason)
    | .ok () => Region.ofArgs args >>= fun region => Except.ok (d, region)) = _
  cases hargs : d.checkArguments args.keys with
  | error reason => rfl
  | ok accepted =>
    -- no parameter has a name of the system
    have hfree : args.keys.find? isReserved = none := by
      rw [List.find?_eq_none]
      intro n hn
      simp [d.unreserved_of_checkArguments hargs n hn]
    simp only [Region.ofArgs_eq, hfree]
    rfl

/-- Whether arguments are accepted is told by their names. -/
theorem bindArguments_matches {d : Definition} (hd : e.playbooks.get? name = some d)
    (hkey : ∀ n ∈ d.graph.nodes, key ∉ n.reads) (hsupplied : args'.contains key = args.contains key)
    (hagree : ∀ k, k ≠ key → args'.get? k = args.get? k) :
    Matches (BoundOff key) (e.bindArguments name args) (e.bindArguments name args') := by
  have hkeys : args'.keys = args.keys := by
    refine Dict.keys_congr fun k => ?_
    by_cases hk : k = key
    · rw [hk, hsupplied]
    · rw [Dict.contains, hagree k hk]
      rfl
  rw [bindArguments_eq hd, bindArguments_eq hd, hkeys]
  cases d.checkArguments args.keys with
  | error reason => exact .error _
  | ok accepted => exact .ok ⟨rfl, hagree, hkey⟩

/-- A run whose arguments differ at the key only starts the same way for both. -/
theorem start_coupled
    (hbound : Matches (BoundOff key) (e.bindArguments name args) (e.bindArguments name args'))
    (mark : ThreadId) :
    Coupled Eq (WalkEnd.AgreeOff key) (e.start caller name args mark) (e.start caller name args' mark) := by
  refine .bind (.ofExcept hbound) ?_
  rintro ⟨d, region⟩ ⟨_, region'⟩ ⟨rfl, hregion, hkey⟩
  exact .after _ fun _ => walk_coupled _ hkey ⟨region', hregion, rfl⟩

theorem outcome_coupled {done done' : WalkEnd} (status : RunStatus)
    (houtputs : done'.frame.outputs = done.frame.outputs) (hsteps : done'.steps = done.steps)
    (h : f.AgreeOff key f') :
    Coupled Eq (Outcome.AgreeOff key) (outcome (σ := σ) status done f) (outcome status done' f') := by
  rintro w _ rfl
  refine ⟨rfl, .ok ⟨f', h, ?_⟩⟩
  rw [houtputs, hsteps]

/-- The runs do the same and end alike. -/
theorem run_coupled (caller : Caller)
    (hbound : Matches (BoundOff key) (e.bindArguments name args) (e.bindArguments name args')) :
    Coupled Eq (Outcome.AgreeOff key) (e.run caller name args) (e.run caller name args') := by
  refine .after _ fun mark => (start_coupled hbound mark).attempt.bind ?_
  rintro _ _ (cause | hdone)
  · exact .after _ fun _ => .after _ fun _ => .throw cause
  · obtain ⟨_, ⟨r', hr, rfl⟩, rfl⟩ := hdone
    simp only
    split
    · exact .after _ fun _ => .after _ fun active => .after _ fun _ => outcome_coupled _ rfl rfl ⟨r', hr, rfl⟩
    · exact .after _ fun _ => outcome_coupled _ rfl rfl ⟨r', hr, rfl⟩

/-- The runs dispatch the same nodes. -/
theorem dispatched_agree (caller : Caller)
    (hbound : Matches (BoundOff key) (e.bindArguments name args) (e.bindArguments name args')) (w : World σ) :
    List.Forall₂ (Dispatch.AgreeOff key) (e.dispatched caller name args w)
      (e.dispatched caller name args' w) := by
  rw [dispatched, dispatched]
  generalize e.bindArguments name args = bound, e.bindArguments name args' = bound' at hbound
  cases hbound with
  | error cause => exact .nil
  | @ok a b hab =>
    obtain ⟨hd, hregion, hkey⟩ := hab
    simp only [hd]
    exact Standing.dispatched_agree _ 0 hkey ⟨_, ⟨_, hregion, rfl⟩, rfl⟩

/-- An argument that no node of the playbook reads is inert. Whatever value is supplied for it, the run makes
the same calls of the host, dispatches the same nodes in the same worlds at every call depth, leaves the same
world behind, and fails of the same cause or ends alike: the frames at its end differ at most in the value
under that key. -/
theorem inert_of_run (e : Engine σ) (caller : Caller) {name : String} {d : Definition}
    (hd : e.playbooks.get? name = some d) {key : String} (hkey : ∀ n ∈ d.graph.nodes, key ∉ n.reads)
    (hlast : key ≠ defaultOutputKey) {args args' : Dict Json}
    (hsupplied : args'.contains key = args.contains key)
    (hagree : ∀ k, k ≠ key → args'.get? k = args.get? k) (w : World σ) :
    (e.run caller name args' w).2 = (e.run caller name args w).2 ∧
      List.Forall₂ (Dispatch.AgreeOff key) (e.dispatched caller name args w)
        (e.dispatched caller name args' w) ∧
      Matches (fun o o' => o.AgreeOff key o' ∧ o'.last? = o.last?) (e.run caller name args w).1
        (e.run caller name args' w).1 := by
  have hbound := bindArguments_matches hd hkey hsupplied hagree
  obtain ⟨hworld, hresult⟩ := run_coupled caller hbound w w rfl
  exact ⟨hworld.symm, dispatched_agree caller hbound w, hresult.mono fun o o' ho => ⟨ho, ho.last? hlast⟩⟩

end Engine

/-! ## A remark that nobody reads -/

namespace Tour

/-- Greets somebody. -/
def greet : Definition where
  graph := ⟨"greet", none, "say", [⟨"who", "whom to greet"⟩], [⟨"say", .emit "hello \x7bwho\x7d", none, []⟩]⟩
  sound := ⟨Schema.truthValues, by decide⟩

/-- A call of the greeting that hands over the guest. -/
def reception : Call :=
  ⟨"greet", Dict.empty.insert "who" (.str "\x7bguest\x7d"), .inline, true, none, none, none, false⟩

/-- Has a guest greeted. -/
def welcome : Definition where
  graph := ⟨"welcome", none, "receive", [⟨"guest", "who comes"⟩, ⟨"remark", "what is said of the guest"⟩],
    [⟨"receive", .invoke reception, none, []⟩]⟩
  sound := ⟨Schema.truthValues, by decide⟩

def hall : Engine Unit :=
  { engine with playbooks := (Registry.ofDefinitions [greet, welcome]).toOption.getD .empty }

/-- Ann comes, and something is said about her. -/
def arrival (remark : Json) : Dict Json := (Dict.empty.insert "guest" (.str "Ann")).insert "remark" remark

end Tour

/-- Whatever is said about Ann, she is greeted in the same way. -/
theorem Tour.welcome_inert :
    (Tour.hall.run Outing.traveller "welcome" (Tour.arrival (.str "late")) Outing.world).2 =
        (Tour.hall.run Outing.traveller "welcome" (Tour.arrival .null) Outing.world).2 ∧
      (∃ o o',
        (Tour.hall.run Outing.traveller "welcome" (Tour.arrival .null) Outing.world).1 = .ok o ∧
        (Tour.hall.run Outing.traveller "welcome" (Tour.arrival (.str "late")) Outing.world).1 = .ok o' ∧
        o.outputs.map (·.content) = ["hello Ann"] ∧ o.AgreeOff "remark" o' ∧ o'.last? = o.last?) := by
  have hagree : ∀ k, k ≠ "remark" → (Tour.arrival (.str "late")).get? k = (Tour.arrival .null).get? k := by
    intro k hk
    rw [Tour.arrival, Tour.arrival, Dict.get?_insert_of_ne _ hk, Dict.get?_insert_of_ne _ hk]
  have houtputs : (Tour.hall.run Outing.traveller "welcome" (Tour.arrival .null) Outing.world).1.toOption.map
      (fun o => o.outputs.map (·.content)) = some ["hello Ann"] := by decide +kernel
  obtain ⟨hworld, _, hends⟩ := Engine.inert_of_run Tour.hall Outing.traveller
    (show Tour.hall.playbooks.get? "welcome" = some Tour.welcome from rfl) (by decide) (by decide)
    (show (Tour.arrival (.str "late")).contains "remark" = (Tour.arrival .null).contains "remark" by decide)
    hagree Outing.world
  refine ⟨hworld, ?_⟩
  generalize (Tour.hall.run Outing.traveller "welcome" (Tour.arrival .null) Outing.world).1 = r,
    (Tour.hall.run Outing.traveller "welcome" (Tour.arrival (.str "late")) Outing.world).1 = r' at *
  cases hends with
  | error cause => cases houtputs
  | @ok o o' ho => exact ⟨o, o', rfl, rfl, Option.some.inj houtputs, ho⟩

end Playbook
