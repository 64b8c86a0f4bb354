import Playbook.Proofs.Run.Nodes

/-! # What calls and walks keep

A called walk leaves its sessions to its caller or closes them, and when it fails what it has opened is
aborted, so that the caller stands where it stood. By induction over the calls that may still be nested,
and for each walk over the steps that are left, every walk stands where it should when it ends.

Main statements: `Engine.call_ends`, `Engine.dispatch_ends`, `Engine.steps_ends` and
`Engine.calleesStand_level`.
-/

namespace Playbook

open Hierarchy

variable {σ α : Type} {P : Error → Prop} {g : Ground} {w : World σ} {f : Frame}

/-! ## How walks and nodes end -/

/-- A walk ends standing on its ground, or it is cancelled with its ground still open. -/
def Finishes (g : Ground) (done : WalkEnd) (h : Hierarchy) : Prop :=
  if done.cancelled then Rests g h else Stands g h done.frame

/-- After a node the walk stands on its ground and goes on to a target of the node, or a callee was
cancelled. -/
def Goes (g : Ground) (node : Node) (p : Step × Frame) (h : Hierarchy) : Prop :=
  match p.1 with
  | .halt => Rests g h
  | .branch target => target ∈ node.targets ∧ Stands g h p.2
  | .proceed => Stands g h p.2

theorem Finishes.rests {done : WalkEnd} {h : Hierarchy} (hf : Finishes g done h) : Rests g h := by
  unfold Finishes at hf
  split at hf
  · exact hf
  · exact hf.rests

/-- What an action does to a settled world, in addition to what is known of its end. -/
theorem Exec.Ends.settled {e : Engine σ} {ok : Happening → Prop} {x : Exec σ α}
    {post : α → World σ → Prop} {fail : Error → World σ → Prop} (hinj : Function.Injective e.supply)
    (hw : Settled e w) (hx : Acts e ok x) (h : Exec.Ends x w post fail) :
    Exec.Ends x w
      (fun a w' => (Settled e w' ∧ w.hierarchy.Grows w'.hierarchy) ∧ post a w')
      (fun c w' => (Settled e w' ∧ w.hierarchy.Grows w'.hierarchy) ∧ fail c w') :=
  (Exec.ends_of_world ((hx w).settled hinj hw)).and h

/-- A caller that goes on from where a walk has ended that it has called: with the sessions that were left open,
and in the same thread if it was called inline. -/
def Frame.resumed (f : Frame) (inline : Bool) (done : WalkEnd) : Frame :=
  { f with
    thread := if inline then done.frame.thread else f.thread
    sessions := done.frame.sessions ++ f.sessions }

namespace Engine

variable {e : Engine σ} {caller : Caller} {node : Node} {level : Level σ}

/-- Every walk that can be called from a level finishes on the thread in which it starts, or fails with a
tolerated cause and that thread still open. -/
def CalleesStand (e : Engine σ) (P : Error → Prop) (level : Level σ) : Prop :=
  ∀ descend, level.descend = some descend → ∀ name callee, e.playbooks.get? name = some callee →
    ∀ region w thread, Settled e w → w.hierarchy.active = thread →
      Exec.Ends (descend callee (.start region thread)) w
        (fun done w' => Finishes (.under w.hierarchy thread) done w'.hierarchy)
        (fun c w' => P c ∧ Rests (.under w.hierarchy thread) w'.hierarchy)

/-! ## Calls -/

/-- In a linked collection a call finds its playbook with the right arguments; it cannot be prepared only
where a path has no value, or where calls are nested too deeply. -/
theorem prepare_cases (ht : Tolerates e P) {c : Call} {callee : Definition}
    (hr : e.playbooks.get? c.playbook = some callee)
    (hargs : callee.checkArguments c.args.keys = .ok ()) (level : Level σ) (f : Frame) :
    (∃ cause, e.prepare c level f = .error cause ∧ P cause) ∨
      ∃ region descend, e.prepare c level f = .ok (callee, region, descend) := by
  cases hd : level.descend with
  | none =>
    refine Or.inl ⟨_, ?_, ht.callDepth e.config.engine.maxCallDepth⟩
    simp only [prepare, Registry.require_eq_ok hr, hd, bind, Except.bind]
  | some descend =>
    cases ha : Template.resolveArgs f.region c.args with
    | error cause =>
      rcases Template.resolveArgs_error ha with ⟨path, rfl⟩
      refine Or.inl ⟨_, ?_, ht.missing path⟩
      simp only [prepare, Registry.require_eq_ok hr, hd, ha, bind, Except.bind]
    | ok args =>
      -- the names of the arguments are those that were checked when the playbooks were loaded
      have hkeys : args.keys = c.args.keys := Template.keys_resolveArgs ha
      have hfree : ∀ n ∈ args.keys, isReserved n = false := fun n hn =>
        Definition.unreserved_of_checkArguments hargs n (hkeys ▸ hn)
      rcases Region.exists_ofArgs hfree with ⟨region, hregion⟩
      refine Or.inr ⟨region, descend, ?_⟩
      -- so neither check of the call can fail
      simp only [prepare, Registry.require_eq_ok hr, hd, ha, hkeys, hargs, hregion, bind, Except.bind]

/-- What a caller does with a call that has ended: it stops with it, or writes its result and keeps its outputs. -/
theorem absorb_cases {c : Call} {inline : Bool} {done : WalkEnd} {step : Step} {f' : Frame}
    (h : absorb c inline done f = .ok (step, f')) :
    (done.cancelled = true ∧ step = .halt ∧ f' = f.resumed inline done) ∨
      done.cancelled = false ∧ step = .proceed ∧ ∃ g,
        (c.outputKey = none ∧ g = f.resumed inline done ∨ ∃ key, c.outputKey = some key ∧
          (f.resumed inline done).write key ((done.frame.region.get? defaultOutputKey).getD .null) = .ok g) ∧
        f' = if c.propagate then { g with outputs := g.outputs ++ done.frame.outputs } else g := by
  simp only [absorb] at h
  split at h
  · cases h
    exact .inl ⟨by assumption, rfl, rfl⟩
  · refine .inr ⟨eq_false_of_ne_true (by assumption), ?_⟩
    cases hkey : c.outputKey with
    | none =>
      rw [hkey] at h
      cases h
      exact ⟨rfl, _, .inl ⟨rfl, rfl⟩, rfl⟩
    | some key =>
      rw [hkey] at h
      obtain ⟨g, hwrite, hstep⟩ := Checked.bind_eq_ok.1 h
      cases hstep
      exact ⟨rfl, g, .inr ⟨key, rfl, hwrite⟩, rfl⟩

/-- What a caller keeps of a call can always be written. -/
theorem absorb_ok {c : Call} (hkey : ∀ k, c.outputKey = some k → isReserved k = false) (inline : Bool)
    (done : WalkEnd) (f : Frame) :
    ∃ f', absorb c inline done f = .ok (if done.cancelled then .halt else .proceed, f') ∧
      f'.thread = (if inline then done.frame.thread else f.thread) ∧
      f'.sessions = done.frame.sessions ++ f.sessions := by
  cases hc : done.cancelled with
  | true => exact ⟨_, by simp only [absorb, hc]; rfl, rfl, rfl⟩
  | false =>
    simp only [absorb, hc]
    cases hk : c.outputKey with
    | none =>
      cases hp : c.propagate with
      | false => exact ⟨_, rfl, rfl, rfl⟩
      | true => exact ⟨_, rfl, rfl, rfl⟩
    | some key =>
      simp only [Frame.write, Region.insert_eq_ok (hkey key hk)]
      cases hp : c.propagate with
      | false => exact ⟨_, rfl, rfl, rfl⟩
      | true => exact ⟨_, rfl, rfl, rfl⟩

section

variable (hinj : Function.Injective e.supply)
include hinj

variable {callee : Definition} {region : Region} {descend : Definition → Frame → Exec σ WalkEnd}
  (hacts : ∀ d f, Acts e Any (descend d f))
include hacts

/-- An inline call ends on the thread of its caller; when it fails the caller stands where it stood. -/
theorem callInline_ends (hw : Settled e w) (hs : Stands g w.hierarchy f)
    (hd : Exec.Ends (descend callee (.start region f.thread)) w
      (fun done w' => Finishes (.under w.hierarchy f.thread) done w'.hierarchy)
      (fun c w' => P c ∧ Rests (.under w.hierarchy f.thread) w'.hierarchy)) :
    Exec.Ends (e.callInline caller callee region descend f) w
      (fun done w' => Finishes (.under w.hierarchy f.thread) done w'.hierarchy)
      (fun c w' => P c ∧ Stands g w'.hierarchy f) := by
  rw [callInline_eq]
  refine Exec.ends_bind.2 (Exec.ends_attempt.2 ?_)
  refine (hd.settled hinj hw (hacts _ _)).mono (fun done w' h => h.2) ?_
  intro c w' h
  rcases h with ⟨⟨hw', hgrows⟩, hc, hrests⟩
  have hmem : f.thread ∈ w'.hierarchy.lineage w'.hierarchy.active :=
    (rests_under (g := .under w.hierarchy f.thread)).1 hrests
  -- the thread of the caller is still open, so aborting above it makes it active
  rcases hw'.openPath.abortAbove_of_open hmem e.now with ⟨h', ids, hok, hactive⟩
  have hsteady := hw'.openPath.abortAbove hok
  simp only
  rw [Exec.ends_bind, Exec.ends_aborting, hok]
  refine ⟨hc, hs.later hsteady.openPath (hgrows.trans hsteady.grows) ?_ rfl rfl⟩
  exact hactive.trans hs.thread

variable (ht : Tolerates e P)
include ht

/-- What an isolated call opened is closed when it succeeds, and is still open or closed with its session
when it fails. -/
theorem walkIsolated_ends (hw : Settled e w) {child p : ThreadId} {t : Thread}
    (hchild : w.hierarchy.active = child) (hg : w.hierarchy.get? child = some t)
    (hp : t.parent = some p)
    (hd : Exec.Ends (descend callee (.start region child)) w
      (fun done w' => Finishes (.under w.hierarchy child) done w'.hierarchy)
      (fun c w' => P c ∧ Rests (.under w.hierarchy child) w'.hierarchy)) (summarize : Bool) :
    Exec.Ends (e.walkIsolated caller callee region descend summarize child) w
      (fun done w' => (done.cancelled = true ∧ child ∈ w'.hierarchy.lineage w'.hierarchy.active) ∨
        (done.cancelled = false ∧ w'.hierarchy.active = p ∧ done.frame.sessions = []))
      (fun c w' => P c ∧
        (child ∈ w'.hierarchy.lineage w'.hierarchy.active ∨ w'.hierarchy.active = p)) := by
  have hunder : ∀ {h : Hierarchy}, Rests (.under w.hierarchy child) h →
      child ∈ h.lineage h.active := fun hr => (rests_under (g := .under w.hierarchy child)).1 hr
  refine Exec.ends_bind.2 ((hd.settled hinj hw (hacts _ _)).mono ?_
    fun c w₁ h₁ => ⟨h₁.2.1, Or.inl (hunder h₁.2.2)⟩)
  intro done w₁ h₁
  rcases h₁ with ⟨⟨hw₁, hgrows₁⟩, hfin⟩
  cases hc : done.cancelled with
  | true =>
    rw [if_pos rfl]
    exact Or.inl ⟨hc, hunder hfin.rests⟩
  | false =>
    simp only [Finishes, hc] at hfin
    have hs : Stands (.under w.hierarchy child) w₁.hierarchy done.frame := hfin
    rw [if_neg Bool.false_ne_true]
    refine Exec.ends_bind.2 (((closeAll_keeps ht hs).settled hinj hw₁
      (acts_closeAll done.frame.sessions done.frame)).mono ?_
      fun c w₂ h₂ => ⟨h₂.2.1, Or.inl (hunder h₂.2.2)⟩)
    intro f₂ w₂ h₂
    rcases h₂ with ⟨⟨hw₂, hgrows₂⟩, hs₂, hsess⟩
    -- with no session left the walk stands on its own thread again
    have hactive : w₂.hierarchy.active = child := by
      rcases hs₂.resting with ⟨b, rfl, hb, hline⟩
      rcases Option.ne_none_iff_exists'.1 (hs₂.grows.isSome hb) with ⟨u, hu⟩
      rcases hs₂.openPath.active_mem with ⟨a, ha⟩
      have hopened : f₂.opened = [] := by rw [Frame.opened, hsess]; rfl
      rw [hopened, List.reverse_nil, List.append_nil] at hline
      have htree := hs₂.openPath.toIsTree
      exact htree.eq_of_mem_lineage (hline ▸ htree.self_mem_lineage ha)
        (hline ▸ htree.self_mem_lineage hu)
    -- the session keeps its parent, which is active when it is closed
    rcases (hgrows₁.trans hgrows₂).thread hg with ⟨t₂, hg₂, hgrow⟩
    have hp₂ : t₂.parent = some p := hgrow.parent.trans hp
    subst hactive
    refine Exec.ends_bind.2 ((close_ends ht hw₂.openPath hg₂ hp₂ summarize).mono
      ?_ fun c w₃ h₃ => ⟨h₃.1, Or.inr h₃.2.2⟩)
    intro f₃ w₃ h₃
    exact Or.inr ⟨rfl, h₃.2.1, h₃.2.2.2.trans hsess⟩

/-- However an isolated call ends, the thread of its caller is active again. -/
theorem callIsolated_ends (hw : Settled e w) {child p : ThreadId} {t : Thread}
    (hchild : w.hierarchy.active = child) (hg : w.hierarchy.get? child = some t)
    (hp : t.parent = some p)
    (hd : Exec.Ends (descend callee (.start region child)) w
      (fun done w' => Finishes (.under w.hierarchy child) done w'.hierarchy)
      (fun c w' => P c ∧ Rests (.under w.hierarchy child) w'.hierarchy)) (summarize : Bool) :
    Exec.Ends (e.callIsolated caller callee region descend summarize child) w
      (fun done w' => w'.hierarchy.active = p ∧
        (done.cancelled = false → done.frame.sessions = []))
      (fun c w' => P c ∧ w'.hierarchy.active = p) := by
  -- whether the session is still open or has been closed, aborting it leads back to its parent
  have hback : ∀ {w' : World σ}, Settled e w' → w.hierarchy.Grows w'.hierarchy →
      (child ∈ w'.hierarchy.lineage w'.hierarchy.active ∨ w'.hierarchy.active = p) →
      ∃ h' ids, w'.hierarchy.abort child e.now = .ok (h', ids) ∧ h'.active = p := by
    intro w' hw' hgrows hopen
    rcases hgrows.thread hg with ⟨t', hg', hgrow⟩
    rcases hw'.openPath.abort_back hg' (hgrow.parent.trans hp) hopen e.now with ⟨h', ids, hok, _, hactive⟩
    exact ⟨h', ids, hok, hactive⟩
  have hwalk : Exec.Ends (e.walkIsolated caller callee region descend summarize child) w _ _ :=
    walkIsolated_ends hinj hacts ht hw hchild hg hp hd summarize
  rw [callIsolated_eq]
  refine Exec.ends_bind.2 (Exec.ends_attempt.2 ?_)
  refine (hwalk.settled hinj hw
    (acts_walkIsolated (fun _ _ => trivial) hacts summarize child)).mono
    ?_ ?_
  · intro done w' h
    rcases h with ⟨⟨hw', hgrows⟩, ⟨hc, hopen⟩ | ⟨hc, hactive, hsess⟩⟩
    · rcases hback hw' hgrows (Or.inl hopen) with ⟨h', ids, hok, hactive⟩
      simp only [hc, if_true]
      rw [Exec.ends_bind, Exec.ends_aborting, hok]
      refine ⟨hactive, ?_⟩
      intro hfalse
      rw [hc] at hfalse
      cases hfalse
    · simp only [hc]
      exact ⟨hactive, fun _ => hsess⟩
  · intro c w' h
    rcases h with ⟨⟨hw', hgrows⟩, hc, hopen⟩
    rcases hback hw' hgrows hopen with ⟨h', ids, hok, hactive⟩
    simp only
    rw [Exec.ends_bind, Exec.ends_aborting, hok]
    exact ⟨hc, hactive⟩

end

/-! ## Nodes -/

/-- The node writes what it may, its schema is excused, and its calls cannot be prepared for tolerated causes
only. -/
structure NodeOk (e : Engine σ) (P : Error → Prop) (node : Node) : Prop where
  writes : ∀ k ∈ node.writes, isReserved k = false
  schema : ∀ s, node.schema? = some s → e.Excuses P s
  prepare : ∀ c, node.kind = .invoke c → ∀ (level : Level σ) f cause,
    e.prepare c level f = .error cause → P cause

/-- Every node of every playbook is so. -/
def NodesOk (e : Engine σ) (P : Error → Prop) : Prop :=
  ∀ {name id d node}, e.playbooks.get? name = some d → d.node? id = some node → NodeOk e P node

/-- In a linked collection every callee is found with the right arguments, and the schemas with which a playbook
was built are no surprise to an engine that has the same. -/
theorem nodesOk_of_linked (ht : Tolerates e P) (hl : e.playbooks.Linked)
    (hbuilt : ∀ name d, e.playbooks.get? name = some d → d.BuiltBy e.schemas) : NodesOk e P := by
  intro name id d node hd hn
  refine { writes := (Definition.node_sound hn).writes, schema := ?_, prepare := ?_ }
  · intro s hs reason hc
    exact absurd hc (Schema.Compiler.compile_ne_error ((hbuilt name d hd).compiles hn hs) reason)
  intro c hkind level f cause hp
  rcases hl name d hd node (Definition.node_mem hn) c hkind with ⟨callee, hr, hargs⟩
  rcases prepare_cases ht hr hargs level f with ⟨cause', hp', hcause⟩ | ⟨region, descend, hp'⟩
  · rw [hp] at hp'
    cases hp'
    exact hcause
  · rw [hp] at hp'
    cases hp'

/-- Where every cause is tolerated the collection need not be linked. -/
theorem nodesOk_all (e : Engine σ) : NodesOk e (fun _ => True) := by
  intro name id d node _ hn
  exact { writes := (Definition.node_sound hn).writes, schema := fun _ _ _ _ => trivial,
          prepare := fun _ _ _ _ _ _ => trivial }

/-- What an inline call has left open is handed over to the caller. -/
theorem absorb_inline_ends {w' : World σ} {c : Call} {done : WalkEnd} {fail : Error → World σ → Prop}
    (hkey : ∀ k, c.outputKey = some k → isReserved k = false) (hs : Stands g w.hierarchy f)
    (hw' : Settled e w') (hgrows : w.hierarchy.Grows w'.hierarchy)
    (hfin : Finishes (.under w.hierarchy f.thread) done w'.hierarchy) :
    Exec.Ends (Exec.ofExcept (absorb c true done f)) w' (fun p w'' => Goes g node p w''.hierarchy)
      fail := by
  rcases absorb_ok hkey true done f with ⟨f', ha, hthread, hsess⟩
  rw [ha, Exec.ends_ofExcept]
  cases hc : done.cancelled with
  | true =>
    exact hs.rests_later hw'.openPath hgrows
      ((rests_under (g := .under w.hierarchy f.thread)).1 hfin.rests)
  | false =>
    simp only [Finishes, hc] at hfin
    exact hs.join hfin hthread hsess

/-- An isolated call hands over no session: its own are closed when it ends. -/
theorem absorb_isolated_ends {w' : World σ} {c : Call} {done : WalkEnd}
    {fail : Error → World σ → Prop} (hkey : ∀ k, c.outputKey = some k → isReserved k = false)
    (hs : Stands g w'.hierarchy f) (hempty : done.cancelled = false → done.frame.sessions = []) :
    Exec.Ends (Exec.ofExcept (absorb c false done f)) w' (fun p w'' => Goes g node p w''.hierarchy)
      fail := by
  rcases absorb_ok hkey false done f with ⟨f', ha, hthread, hsess⟩
  rw [ha, Exec.ends_ofExcept]
  cases hc : done.cancelled with
  | true => exact hs.rests
  | false =>
    rw [hempty hc, List.nil_append] at hsess
    exact hs.congr hthread (by rw [Frame.opened, hsess]; rfl)

section

variable (hinj : Function.Injective e.supply) (ht : Tolerates e P)
  (hcallees : CalleesStand e P level) (hacts : CalleesAct e Any level)
include hinj ht hcallees hacts

/-- A call that fails leaves the caller where it stood. -/
theorem call_ends (hn : NodeOk e P node) (hw : Settled e w) (hs : Stands g w.hierarchy f) {c : Call}
    (hkind : node.kind = .invoke c) :
    Exec.Ends (e.call caller node c level f) w (fun p w' => Goes g node p w'.hierarchy)
      (fun c w' => P c ∧ Stands g w'.hierarchy f) := by
  have hkey : ∀ k, c.outputKey = some k → isReserved k = false := fun k hk =>
    hn.writes k (by simp [Node.writes, hkind, hk])
  rcases hp : e.prepare c level f with cause | ⟨callee, region, descend⟩
  · rw [call_of_error hp]
    exact ⟨hn.prepare c hkind level f cause hp, hs⟩
  have hr : e.playbooks.get? c.playbook = some callee := Registry.get?_of_require (prepare_ok hp).1
  have hdesc : level.descend = some descend := (prepare_ok hp).2.1
  -- what the levels below guarantee of the callee
  have hd := hcallees descend hdesc c.playbook callee hr region
  have hda : ∀ d f, Acts e Any (descend d f) := hacts descend hdesc
  cases hm : c.mode with
  | inline =>
    rw [call_inline hp hm]
    have hinline : Exec.Ends (e.callInline caller callee region descend f) w _ _ :=
      callInline_ends hinj hda hw hs (hd w f.thread hw hs.thread.symm)
    refine Exec.ends_bind.2 ((hinline.settled hinj hw
      (acts_callInline (fun _ _ => trivial) hda)).mono ?_ fun _ _ h => h.2)
    intro done w' h
    rcases h with ⟨⟨hw', hgrows⟩, hfin⟩
    exact absorb_inline_ends hkey hs hw' hgrows hfin
  | isolated =>
    rw [call_isolated hp hm]
    refine Exec.ends_bind.2 (((open?_ends hw c.windowRatio (some callee.name)).settled hinj hw
      (acts_open? c.windowRatio (some callee.name))).mono ?_ fun _ _ h => h.2.elim)
    intro r w₁ h₁
    rcases h₁ with ⟨⟨hw₁, hgrows₁⟩, hopen⟩
    cases r with
    | error cause =>
      have hsame : w₁.hierarchy = w.hierarchy := hopen
      refine Exec.ends_bind.2 ((still_reject (P := fun _ => False) cause w₁).mono
        ?_ fun _ _ h => h.1.elim)
      intro f' w' h
      rcases h with ⟨⟨hthread, hsess⟩, hw'⟩
      show Stands g w'.hierarchy f'
      rw [hw', hsame]
      exact hs.congr hthread (by rw [Frame.opened, hsess]; rfl)
    | ok child =>
      rcases hopen with ⟨hfresh, p, ratio, he⟩
      have hparent : (Thread.nested child p ratio (some callee.name) e.now).parent =
          some f.thread := by
        rw [hs.thread, ← hs.openPath.id_eq he.parent]
        rfl
      have hisolated : Exec.Ends (e.callIsolated caller callee region descend c.summarize child)
          w₁ _ _ := callIsolated_ends hinj hda ht hw₁ he.active he.get?_new hparent
        (hd w₁ child hw₁ he.active) c.summarize
      refine Exec.ends_bind.2 ((hisolated.settled hinj hw₁
        (acts_callIsolated (fun _ _ => trivial) hda c.summarize child)).mono
        ?_ ?_)
      · intro done w' h
        rcases h with ⟨⟨hw', hgrows⟩, hactive, hempty⟩
        have hs' : Stands g w'.hierarchy f :=
          hs.later hw'.openPath (hgrows₁.trans hgrows) (hactive.trans hs.thread) rfl rfl
        exact absorb_isolated_ends hkey hs' hempty
      · intro cause w' h
        rcases h with ⟨⟨hw', hgrows⟩, hcause, hactive⟩
        exact ⟨hcause, hs.later hw'.openPath (hgrows₁.trans hgrows) (hactive.trans hs.thread)
          rfl rfl⟩

/-- A call whose failure leads to a node goes on there, in the state before the call. -/
theorem invoke_ends (hn : NodeOk e P node) (hw : Settled e w) (hs : Stands g w.hierarchy f) {c : Call}
    (hkind : node.kind = .invoke c) :
    Exec.Ends (e.invoke caller node c level f) w (fun p w' => Goes g node p w'.hierarchy)
      (fun c w' => P c ∧ Rests g w'.hierarchy) := by
  have hcall : Exec.Ends (e.call caller node c level f) w _ _ :=
    call_ends hinj ht hcallees hacts hn hw hs hkind
  unfold invoke
  cases hf : c.onFailure with
  | none => exact hcall.mono (fun _ _ h => h) fun _ _ h => ⟨h.1, h.2.rests⟩
  | some target =>
    refine Exec.ends_bind.2 (Exec.ends_attempt.2 (hcall.mono (fun p w' h => h) ?_))
    intro cause w' h
    have hkey : isReserved errorKey = false := by decide
    rcases f.write_ok hkey (.str cause.message) with ⟨f', hwrite, hthread, hsess⟩
    simp only
    rw [hwrite, Exec.ends_bind, Exec.ends_ofExcept]
    refine ⟨?_, h.2.congr hthread (by rw [Frame.opened, hsess]; rfl)⟩
    simp [Node.targets, Node.onFailure?, hkind, hf]

/-- Whatever a node does, the walk stands afterwards where it should. -/
theorem dispatch_ends (hn : NodeOk e P node) (hw : Settled e w) (hs : Stands g w.hierarchy f)
    (htop : level.depth = 0 → IsTree g.before ∧ ∀ b, g.base b) :
    Exec.Ends (e.dispatch caller level node f) w (fun p w' => Goes g node p w'.hierarchy)
      (fun c w' => P c ∧ Rests g w'.hierarchy) := by
  have hproceed : ∀ {x : Exec σ Frame}, Keeps P g x w →
      Exec.Ends (x >>= fun f => pure (Step.proceed, f)) w (fun p w' => Goes g node p w'.hierarchy)
        (fun c w' => P c ∧ Rests g w'.hierarchy) := fun hx => hx.bind fun _ _ hf => hf
  have htop' : (level.depth == 0) = true → IsTree g.before ∧ ∀ b, g.base b := fun h =>
    htop (beq_iff_eq.1 h)
  simp only [dispatch]
  cases hkind : node.kind with
  | generate gen =>
    refine hproceed ((still_generate ht (hn.writes _ ?_) fun s hsch => hn.schema s ?_).keeps hs)
    · simp [Node.writes, hkind]
    · simp [Node.schema?, hkind, hsch]
  | invokeTool t =>
    refine hproceed ((still_useTool ht (hn.writes _ ?_)).keeps hs)
    simp [Node.writes, hkind]
  | emit content => exact hproceed (emit_keeps ht hs content)
  | reflect content => exact hproceed ((still_reflect ht content).keeps hs)
  | record r => exact hproceed ((still_record ht _ r).keeps hs)
  | pass => exact hs
  | invoke c => exact invoke_ends hinj ht hcallees hacts hn hw hs hkind
  | enterSession o => exact hproceed (enterSession_keeps hw hs o)
  | leaveSession summarize => exact hproceed (leaveSession_keeps ht hs htop' summarize)

end

end Engine

/-! ## One step of a walk -/

/-- The world when a node has been announced. -/
def World.announced (w : World σ) (agent : String) (d : Definition) (node : Node) (made : Nat) :
    World σ :=
  { w with events := w.events ++ [⟨agent, .nodeStarted d.name node.id (made + 1)⟩] }

/-- The world when a node has been done. -/
def World.ticked (w : World σ) (agent : String) (d : Definition) (node : Node) (made depth : Nat) :
    World σ :=
  { w with
    trace := w.trace ++ [⟨d.name, node.id, node.kind.typeName, made + 1, depth⟩]
    events := w.events ++ [⟨agent, .nodeCompleted node.id⟩] }

/-- Where a walk goes from a node; none ends it. -/
def Node.goal? (node : Node) : Step × Frame → Option String
  | (.halt, _) => none
  | (.branch target, _) => some target
  | (.proceed, f) => node.successor? f.region

theorem World.settled_announced {e : Engine σ} (hw : Settled e w) (agent : String) (d : Definition)
    (node : Node) (made : Nat) : Settled e (w.announced agent d node made) :=
  ⟨hw.openPath, hw.fresh⟩

theorem World.settled_ticked {e : Engine σ} (hw : Settled e w) (agent : String) (d : Definition)
    (node : Node) (made depth : Nat) : Settled e (w.ticked agent d node made depth) :=
  ⟨hw.openPath, hw.fresh⟩

theorem Goes.goal {node : Node} {p : Step × Frame} {h : Hierarchy} {graph : Graph} {next : String}
    (hgoes : Goes g node p h) (hn : graph.NodeSound node) (hgoal : node.goal? p = some next) :
    Stands g h p.2 ∧ next ∈ graph.ids := by
  rcases p with ⟨step, f'⟩
  cases step with
  | halt => cases hgoal
  | branch target =>
    cases hgoal
    exact ⟨hgoes.2, hn.targets _ hgoes.1⟩
  | proceed =>
    refine ⟨hgoes, hn.targets next ?_⟩
    simp only [Node.goal?, Node.successor?] at hgoal
    split at hgoal
    · rename_i b hb
      cases hgoal
      have hmem := List.mem_of_find?_eq_some hb
      exact List.mem_append_left _ (List.mem_append_left _ (List.mem_map.2 ⟨b, hmem, rfl⟩))
    · simp [Node.targets, hgoal]

theorem Goes.finishes {node : Node} {p : Step × Frame} {h : Hierarchy} (hgoes : Goes g node p h)
    (hgoal : node.goal? p = none) (made : Nat) : Finishes g ⟨p.2, made, p.1 == .halt⟩ h := by
  rcases p with ⟨step, f'⟩
  cases step with
  | halt => exact hgoes
  | branch target => cases hgoal
  | proceed => exact hgoes

namespace Engine

variable {e : Engine σ} {caller : Caller} {node : Node}

section

variable {level : Level σ}

/-- A walk that is told to stop stops where it is. -/
theorem steps_of_stops (hc : w.stops e.host = true) (d : Definition) (left made : Nat) (id : String) :
    e.steps caller level d left made id f w = (.ok ⟨f, made, true⟩, w.polled e.host) := by
  unfold steps
  rw [Exec.bind_run]
  simp only [Exec.poll, hc, if_true]
  rfl

/-- A walk that has used up its steps fails. -/
theorem steps_zero (hc : w.stops e.host = false) (d : Definition) (made : Nat) (id : String) :
    e.steps caller level d 0 made id f w =
      (.error (.stepLimitExceeded e.config.engine.maxSteps), w) := by
  unfold steps
  rw [Exec.bind_run]
  simp only [Exec.poll, hc, World.polled_of_not_stops hc]
  rfl

/-- A walk fails at a node that its playbook does not have. -/
theorem steps_of_node_none (hc : w.stops e.host = false) {d : Definition} {id : String}
    (hn : d.node? id = none) (left made : Nat) :
    e.steps caller level d (left + 1) made id f w = (.error (.nodeNotFound d.name id), w) := by
  rw [steps, Exec.bind_run]
  simp only [Exec.poll, hc, hn, World.polled_of_not_stops hc]
  rfl

/-- A walk announces a node, dispatches it, and goes on where the node leads. -/
theorem steps_succ (hc : w.stops e.host = false) {d : Definition} {id : String}
    (hn : d.node? id = some node) (left made : Nat) :
    e.steps caller level d (left + 1) made id f w =
      match e.dispatch caller level node f (w.announced caller.agent.id d node made) with
      | (.error cause, w') => (.error cause, w')
      | (.ok p, w') =>
        match node.goal? p with
        | some next =>
          e.steps caller level d left (made + 1) next p.2
            (w'.ticked caller.agent.id d node made level.depth)
        | none =>
          (.ok ⟨p.2, made + 1, p.1 == .halt⟩, w'.ticked caller.agent.id d node made level.depth) := by
  rw [steps, Exec.bind_run]
  simp only [Exec.poll, hc, hn, World.polled_of_not_stops hc, Bool.false_eq_true, if_false]
  rw [Exec.bind_run]
  simp only [Exec.publish, Exec.change]
  rw [Exec.bind_run]
  simp only [World.announced]
  generalize e.dispatch caller level node f _ = outcome
  rcases outcome with ⟨r, w'⟩
  cases r with
  | error cause => rfl
  | ok p =>
    rcases p with ⟨step, f'⟩
    cases step with
    | halt => rfl
    | branch target => rfl
    | proceed =>
      simp only [Node.goal?, Exec.bind_run]
      cases node.successor? f'.region <;> rfl

end

/-! ## Walks -/

/-- The level of a walk in which some calls may still be nested. -/
def level (e : Engine σ) (caller : Caller) : Nat → Level σ
  | 0 => ⟨e.config.engine.maxCallDepth, none⟩
  | calls + 1 => ⟨e.config.engine.maxCallDepth - (calls + 1), some (e.walk caller calls)⟩

theorem walk_eq (calls : Nat) (d : Definition) (f : Frame) :
    e.walk caller calls d f =
      e.steps caller (e.level caller calls) d e.config.engine.maxSteps 0 d.start f := by
  cases calls <;> rfl

theorem level_depth (calls : Nat) :
    (e.level caller calls).depth = e.config.engine.maxCallDepth - calls := by
  cases calls <;> rfl

/-- What can be called from a level is a walk in which one call less may be nested. -/
theorem descend_level {calls : Nat} {descend : Definition → Frame → Exec σ WalkEnd}
    (hd : (e.level caller calls).descend = some descend) :
    ∃ n, calls = n + 1 ∧ descend = e.walk caller n := by
  cases calls with
  | zero => cases hd
  | succ n => exact ⟨n, rfl, (Option.some.inj hd).symm⟩

theorem calleesAct_level (calls : Nat) : CalleesAct e Any (e.level caller calls) := by
  intro descend hd
  rcases descend_level hd with ⟨n, rfl, rfl⟩
  exact acts_walk n

section

variable (hinj : Function.Injective e.supply) (ht : Tolerates e P) (hok : NodesOk e P)
include hinj ht hok

/-- From every node of its playbook a walk finishes on its ground, or fails with a tolerated cause and the
ground still open. The induction is on the steps that are left. -/
theorem steps_ends {level : Level σ} (hcallees : CalleesStand e P level) (hacts : CalleesAct e Any level)
    (htop : level.depth = 0 → IsTree g.before ∧ ∀ b, g.base b) {name : String} {d : Definition}
    (hd : e.playbooks.get? name = some d) {left made : Nat} {id : String} (hid : id ∈ d.graph.ids)
    (hw : Settled e w) (hs : Stands g w.hierarchy f) :
    Exec.Ends (e.steps caller level d left made id f) w
      (fun done w' => Finishes g done w'.hierarchy)
      (fun c w' => P c ∧ Rests g w'.hierarchy) := by
  -- on the steps that are left; the one that fails or has no next node is the last
  induction left generalizing made id f w with
  | zero =>
    cases hc : w.stops e.host with
    | true => exact (Exec.ends_of_ok (steps_of_stops hc d 0 made id)).2 hs.rests
    | false =>
      exact (Exec.ends_of_error (steps_zero hc d made id)).2 ⟨ht.stepLimit _, hs.rests⟩
  | succ left ih =>
    cases hc : w.stops e.host with
    | true => exact (Exec.ends_of_ok (steps_of_stops hc d _ made id)).2 hs.rests
    | false =>
      rcases Definition.exists_node hid with ⟨node, hn⟩
      have hw₁ : Settled e (w.announced caller.agent.id d node made) :=
        World.settled_announced hw caller.agent.id d node made
      have hdispatch : Exec.Ends (e.dispatch caller level node f)
          (w.announced caller.agent.id d node made) _ _ :=
        (dispatch_ends hinj ht hcallees hacts (hok hd hn) hw₁ hs htop).settled hinj
          hw₁ (acts_dispatch (fun _ _ => trivial) hacts)
      rw [Exec.Ends, steps_succ hc hn left made]
      rcases Exec.cases_run (e.dispatch caller level node f) (w.announced caller.agent.id d node made)
        with ⟨p, hx⟩ | ⟨cause, hx⟩
      · rw [Exec.ends_of_ok hx] at hdispatch
        rw [hx]
        rcases hdispatch with ⟨⟨hw', _⟩, hgoes⟩
        cases hgoal : node.goal? p with
        | none =>
          simp only [hgoal]
          exact hgoes.finishes hgoal (made + 1)
        | some next =>
          rcases hgoes.goal (Definition.node_sound hn) hgoal with ⟨hs', hnext⟩
          simp only [hgoal]
          exact ih hnext (World.settled_ticked hw' caller.agent.id d node made level.depth) hs'
      · rw [Exec.ends_of_error hx] at hdispatch
        rw [hx]
        exact hdispatch.2

/-- Every walk that can be called finishes on the thread in which it starts. The induction is on the calls
that may still be nested in it. -/
theorem calleesStand_level {calls : Nat} (hcalls : calls ≤ e.config.engine.maxCallDepth) :
    CalleesStand e P (e.level caller calls) := by
  induction calls with
  | zero =>
    intro descend hd
    cases hd
  | succ calls ih =>
    intro descend hd name callee hr region w thread hw hactive
    cases hd
    rw [walk_eq]
    refine steps_ends hinj ht hok (ih (by omega)) (calleesAct_level calls) ?_ hr
      callee.start_mem hw (.start hw.openPath hactive region)
    intro hdepth
    rw [level_depth] at hdepth
    omega

end

end Engine

end Playbook
