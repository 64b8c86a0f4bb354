import Playbook.Proofs.Registry.Links
import Playbook.Proofs.Run.Alignment
import Playbook.Proofs.Run.Effects
import Playbook.Proofs.Template.Arguments

/-! # What nodes keep

For each kind of node but calls, the walk stands afterwards where it should, and a failure is one of the
tolerated causes. `Still` says that an action leaves the hierarchy alone; entering and leaving sessions
say what becomes of it.

Main statements: `Still.keeps`, `Engine.open?_ends`, `Engine.close_ends`, `Engine.closeAll_keeps`,
`Engine.enterSession_keeps`, `Engine.leaveSession_keeps` and `Engine.emit_keeps`.
-/

namespace Playbook

open Hierarchy

variable {σ α β : Type}

/-! ## Tolerated causes -/

/-- The host fails with such causes only. -/
structure Host.FailsWith (host : Host σ) (P : Error → Prop) : Prop where
  generate : ∀ s r c, (host.generate s r).result = .error c → P c
  useTool : ∀ s context name input c, (host.useTool s context name input).result = .error c → P c
  append : ∀ s entry c, (host.append s entry).result = .error c → P c
  recollect : ∀ s agent limit c, (host.recollect s agent limit).result = .error c → P c
  deliver : ∀ s agent content c, (host.deliver s agent content).result = .error c → P c

/-- The causes of which a walk through a playbook without faults may fail: those of the host, a path without
value, a limit, and an answer that does not conform to a schema. -/
structure Tolerates (e : Engine σ) (P : Error → Prop) : Prop where
  host : e.host.FailsWith P
  missing : ∀ path, P (.missingVariable path)
  stepLimit : ∀ limit, P (.stepLimitExceeded limit)
  callDepth : ∀ limit, P (.callDepthExceeded limit)
  noJson : P (.schemaViolation "model output is not JSON: the text denotes no value")
  violated : ∀ schema check value, e.schemas.compile schema = .ok check →
    P (.schemaViolation (Text.join "; " (check.messages value)))

/-- If the value is no schema, then it is tolerated that this is said. -/
def Engine.Excuses (e : Engine σ) (P : Error → Prop) (schema : Json) : Prop :=
  ∀ reason, e.schemas.compile schema = .error reason →
    P (.schemaViolation (Schema.complaint ++ ": " ++ reason))

/-! ## Actions that leave the hierarchy alone -/

/-- The action does not change the hierarchy; its answer satisfies `Q`, and the cause of its failure `P`. -/
def Still (P : Error → Prop) (Q : α → Prop) (x : Exec σ α) : Prop :=
  ∀ w, Exec.Ends x w (fun a w' => Q a ∧ w'.hierarchy = w.hierarchy)
    (fun c w' => P c ∧ w'.hierarchy = w.hierarchy)

namespace Still

variable {P : Error → Prop} {Q : α → Prop} {R : β → Prop} {x : Exec σ α} {k : α → Exec σ β}

theorem pure {a : α} (h : Q a) : Still P Q (pure a : Exec σ α) := fun _ => ⟨h, rfl⟩

theorem throw {c : Error} (h : P c) : Still P Q (throw c : Exec σ α) := fun _ => ⟨h, rfl⟩

/-- A result is still if its answer and its failure are admitted. -/
theorem ofExcept {r : Except Error α} (hok : ∀ a, r = .ok a → Q a) (hfail : ∀ c, r = .error c → P c) :
    Still P Q (Exec.ofExcept r : Exec σ α) := by
  cases r with
  | ok a => exact .pure (hok a rfl)
  | error c => exact .throw (hfail c rfl)

theorem look (f : World σ → α) : Still P (fun _ => True) (Exec.look f) := fun _ => ⟨trivial, rfl⟩

/-- A change of the world is still if it spares the hierarchy. -/
theorem change {f : World σ → World σ} (h : ∀ w, (f w).hierarchy = w.hierarchy) :
    Still P (fun _ => True) (Exec.change f) :=
  fun w => ⟨trivial, h w⟩

theorem publish (agent : String) (what : Happening) :
    Still P (fun _ => True) (Exec.publish (σ := σ) agent what) :=
  .change fun _ => rfl

/-- A call of the host is still if its failures are admitted. -/
theorem consult {call : σ → Reply σ α} {note : Except Error α → Interaction}
    (h : ∀ s c, (call s).result = .error c → P c) :
    Still P (fun _ => True) (Exec.consult call note) := by
  intro w
  cases hr : (call w.host).result with
  | ok a =>
    have hx : Exec.consult call note w = (.ok a, (Exec.consult call note w).2) := by
      rw [← hr]
      rfl
    exact (Exec.ends_of_ok hx).2 ⟨trivial, rfl⟩
  | error c =>
    have hx : Exec.consult call note w = (.error c, (Exec.consult call note w).2) := by
      rw [← hr]
      rfl
    exact (Exec.ends_of_error hx).2 ⟨h _ _ hr, rfl⟩

/-- Two actions in a row are still if both are. -/
theorem bind (hx : Still P Q x) (hk : ∀ a, Q a → Still P R (k a)) : Still P R (x >>= k) := by
  intro w
  refine Exec.ends_bind.2 ((hx w).mono ?_ fun _ _ hc => hc)
  intro a w' ha
  rcases ha with ⟨hq, hw'⟩
  have hnext := hk a hq w'
  rw [hw'] at hnext
  exact hnext

end Still

/-! ## Frames -/

/-- Two states of a walk in the same thread and with the same sessions. -/
def Frame.SameWalk (f f' : Frame) : Prop := f'.thread = f.thread ∧ f'.sessions = f.sessions

/-- A key that is not reserved can be written, and the walk stays where it is. -/
theorem Frame.write_ok (f : Frame) {key : String} (h : isReserved key = false) (value : Json) :
    ∃ f', f.write key value = .ok f' ∧ f.SameWalk f' := by
  rw [Frame.write, Region.insert_eq_ok h]
  exact ⟨_, rfl, rfl, rfl⟩

/-- The action ends with the walk standing on its ground, or fails with a tolerated cause and the ground
still open. -/
def Keeps (P : Error → Prop) (g : Ground) (x : Exec σ Frame) (w : World σ) : Prop :=
  Exec.Ends x w (fun f w' => Stands g w'.hierarchy f) (fun c w' => P c ∧ Rests g w'.hierarchy)

variable {P : Error → Prop} {g : Ground} {w : World σ} {f : Frame}

/-- What spares the hierarchy keeps the walk in step with it. -/
theorem Still.keeps {x : Exec σ Frame} (hx : Still P (f.SameWalk) x) (hs : Stands g w.hierarchy f) :
    Keeps P g x w := by
  refine (hx w).mono ?_ ?_
  · intro f' w' hf
    rcases hf with ⟨⟨hthread, hsess⟩, hw'⟩
    rw [hw']
    exact hs.congr hthread (by rw [Frame.opened, hsess]; rfl)
  · intro c w' hc
    rw [hc.2]
    exact ⟨hc.1, hs.rests⟩

/-- Where a write is allowed it keeps the walk. -/
theorem Still.write {key : String} (h : isReserved key = false) (value : Json) :
    Still P (f.SameWalk) (Exec.ofExcept (f.write key value) : Exec σ Frame) := by
  rcases f.write_ok h value with ⟨f', hw, hsame⟩
  rw [hw]
  exact .pure hsame

namespace Engine

variable {e : Engine σ} {caller : Caller} {node : Node} (ht : Tolerates e P)

/-! ## Asking the model and closing sessions -/

section

include ht

/-- A context spares the hierarchy. -/
theorem still_context (name : ProfileName) (thread : ThreadId) :
    Still P (fun _ => True) (e.context caller name thread) := by
  unfold context
  split
  · simp only [replyContext]
    split
    · refine .bind (.consult ?_) fun _ _ => .look _
      intro s c hc
      exact ht.host.recollect s _ _ c hc
    · exact .bind (Q := fun _ => True) (.pure trivial) fun _ _ => .look _
  · exact .look _
  · exact .pure trivial

/-- An answer that does not conform is the fault of the schema or its own, and either is tolerated. -/
theorem conform_error {schema : Option Json} {output : Output} {cause : Error}
    (hschema : ∀ s, schema = some s → e.Excuses P s)
    (h : conform e.schemas schema output = .error cause) : P cause := by
  cases schema with
  | none => cases h
  | some s =>
    have hjudge : ∀ v, conform e.schemas (some s) (.structured v) = .error cause → P cause := by
      intro v hv
      simp only [conform, bind, Except.bind] at hv
      cases hcompile : e.schemas.compile s with
      | error reason =>
        rw [hcompile] at hv
        cases hv
        exact hschema s rfl reason hcompile
      | ok check =>
        rw [hcompile] at hv
        dsimp only at hv
        split at hv
        · cases hv
        · cases hv
          exact ht.violated s check v hcompile
    cases output with
    | structured v => exact hjudge v h
    | text t =>
      cases hp : Json.parse? t with
      | none =>
        simp only [conform, hp, bind, Except.bind] at h
        cases h
        exact ht.noJson
      | some v =>
        simp only [conform, hp] at h
        exact hjudge v h

/-- So does a prompt, whose only failure of its own is that the answer does not conform. -/
theorem still_ask (name : ProfileName) (prompt : String) {schema : Option Json}
    (hschema : ∀ s, schema = some s → e.Excuses P s) (thread : ThreadId) :
    Still P (fun _ => True) (e.ask caller name prompt schema thread) := by
  refine .bind (still_context ht name thread) ?_
  intro context _
  refine .bind (.consult fun s c hc => ht.host.generate s _ c hc) ?_
  intro r _
  refine .bind (.change fun _ => rfl) fun _ _ => .bind (.publish _ _) ?_
  intro _ _
  exact .ofExcept (fun _ _ => trivial) fun c hc => conform_error ht hschema hc

/-- The transcript of a thread that is there can always be had; the model may fail. -/
theorem chronicle_ends {id thread : ThreadId} (hid : w.hierarchy.get? id ≠ none) :
    Exec.Ends (e.chronicle caller id thread) w (fun _ w' => w'.hierarchy = w.hierarchy)
      (fun c w' => P c ∧ w'.hierarchy = w.hierarchy) := by
  rcases Option.ne_none_iff_exists'.1 hid with ⟨t, hg⟩
  have htranscript : w.hierarchy.transcript id = .ok t.messages := by
    rw [transcript, require_eq_ok hg]
    rfl
  rw [chronicle, Exec.ends_bind, Exec.ends_look, htranscript, Exec.ends_bind, Exec.ends_ofExcept]
  -- the transcript is there, and what is asked about it leaves the sessions alone
  have hrest : Still P (fun _ => True)
      (if t.messages.isEmpty then pure emptyChronicle
      else do
        let v ← e.ask caller .workerLight (chroniclePrompt t.messages) none thread
        pure v.display : Exec σ String) := by
    split
    · exact .pure trivial
    · exact .bind (still_ask ht _ _ (fun s hs => by cases hs) _) fun _ _ => .pure trivial
  exact (hrest w).mono (fun _ _ h => h.2) fun _ _ h => h

end

/-- The active session is completed, and its parent is active then. -/
theorem complete_ends (ho : OpenPath w.hierarchy) {t : Thread} {p : ThreadId}
    (hg : w.hierarchy.get? w.hierarchy.active = some t) (hp : t.parent = some p)
    (text : Option String) :
    Exec.Ends (e.complete caller w.hierarchy.active text f) w
      (fun f' w' => Steady w.hierarchy w'.hierarchy ∧ w'.hierarchy.active = p ∧ f'.thread = p ∧
        f'.sessions = f.sessions)
      (fun _ _ => False) := by
  rcases exists_leave hg hp text e.now with ⟨h', hl⟩
  rcases leave_maps hl with ⟨_, t', p', hg', hp', hm⟩
  rw [hg] at hg'
  cases hg'
  rw [hp] at hp'
  cases hp'
  rw [complete, Exec.ends_bind, Exec.ends_onHierarchy, hl]
  exact ⟨ho.leave hl, hm.active, hm.active, rfl⟩

/-- A walk that closes a session is afterwards in another thread, and otherwise as it was. -/
theorem close_frame (id : ThreadId) (summarize : Bool) (f : Frame) :
    Exec.Yields (fun f' => f'.region = f.region ∧ f'.outputs = f.outputs ∧ f'.sessions = f.sessions)
      (e.close caller id summarize f) := by
  have hcomplete : ∀ text, Exec.Yields
      (fun f' => f'.region = f.region ∧ f'.outputs = f.outputs ∧ f'.sessions = f.sessions)
      (e.complete caller id text f) :=
    fun _ => .behind fun _ => .behind fun _ => .behind fun _ => .pure ⟨rfl, rfl, rfl⟩
  cases summarize with
  | false => exact hcomplete none
  | true =>
    refine .behind fun r => ?_
    cases r with
    | ok text => exact hcomplete _
    | error cause => exact .behind fun _ => .throw cause

include ht in
/-- Closing the active session makes its parent active, whether its chronicle can be made or not. -/
theorem close_ends (ho : OpenPath w.hierarchy) {t : Thread} {p : ThreadId}
    (hg : w.hierarchy.get? w.hierarchy.active = some t) (hp : t.parent = some p)
    (summarize : Bool) :
    Exec.Ends (e.close caller w.hierarchy.active summarize f) w
      (fun f' w' => Steady w.hierarchy w'.hierarchy ∧ w'.hierarchy.active = p ∧ f'.thread = p ∧
        f'.sessions = f.sessions)
      (fun c w' => P c ∧ Steady w.hierarchy w'.hierarchy ∧ w'.hierarchy.active = p) := by
  unfold close
  cases summarize with
  | false => exact (complete_ends ho hg hp none).mono (fun _ _ h => h) fun _ _ h => h.elim
  | true =>
    rw [if_pos rfl, Exec.ends_bind, Exec.ends_attempt]
    refine (chronicle_ends ht ho.active_ne_none).mono ?_ ?_
    · -- the model does not touch the hierarchy, so the session is still the active one
      intro text w' hw'
      rw [← hw'] at ho hg ⊢
      exact (complete_ends ho hg hp (some text)).mono (fun _ _ h => h) fun _ _ h => h.elim
    · intro c w' hw'
      rcases hw' with ⟨hc, hw'⟩
      rw [← hw'] at ho hg ⊢
      rcases ho.abort_back hg hp (Or.inl (ho.self_mem_lineage hg)) e.now with ⟨h', ids, hok, hsteady, hactive⟩
      simp only
      rw [Exec.ends_bind, Exec.ends_aborting, hok]
      exact ⟨hc, hsteady, hactive⟩

include ht in
/-- Closing the innermost session of a walk. -/
theorem close_keeps (hs : Stands g w.hierarchy f) {id : ThreadId} {rest : List (Option ThreadId)}
    (hf : f.sessions = some id :: rest) (summarize : Bool) :
    Exec.Ends (e.close caller id summarize { f with sessions := rest }) w
      (fun f' w' => Stands g w'.hierarchy f' ∧ f'.sessions = rest)
      (fun c w' => P c ∧ Rests g w'.hierarchy) := by
  rcases hs.pop hf with ⟨rfl, t, p, hg, hp, hpop⟩
  refine (close_ends ht hs.openPath hg hp summarize).mono ?_ ?_
  · intro f' w' h
    rcases h with ⟨hsteady, hactive, hthread, hsess⟩
    exact ⟨hpop _ f' hsteady hactive hthread hsess, hsess⟩
  · intro c w' h
    rcases h with ⟨hc, hsteady, hactive⟩
    exact ⟨hc, (hpop _ { f with sessions := rest, thread := p } hsteady hactive rfl rfl).rests⟩

include ht in
/-- Closing all sessions of a walk leaves none open. -/
theorem closeAll_keeps (hs : Stands g w.hierarchy f) :
    Exec.Ends (e.closeAll caller f.sessions f) w
      (fun f' w' => Stands g w'.hierarchy f' ∧ f'.sessions = [])
      (fun c w' => P c ∧ Rests g w'.hierarchy) := by
  induction hf : f.sessions generalizing f w with
  | nil => exact ⟨hs.congr rfl (by rw [Frame.opened, Frame.opened, hf]), rfl⟩
  | cons entry rest ih =>
    cases entry with
    | none =>
      -- a blank stands for no session
      have hs' : Stands g w.hierarchy { f with sessions := rest } :=
        hs.congr rfl (by simp [Frame.opened, hf])
      exact ih hs' rfl
    | some id =>
      refine (close_keeps ht hs hf true).bind ?_
      intro f' w' h
      rcases h with ⟨hs', hf'⟩
      exact hf' ▸ ih hs' hf'

/-! ## Entering and leaving -/

/-- A rejected operation leaves its message under the key for errors, which is always allowed. -/
theorem still_reject (cause : Error) :
    Still P (f.SameWalk) (reject (σ := σ) caller node cause f) := by
  have hkey : isReserved errorKey = false := by decide
  rcases f.write_ok hkey (.str cause.message) with ⟨f', hw, hsame⟩
  refine .bind (Q := f.SameWalk) ?_ fun f'' hf'' => .bind (.publish _ _) fun _ _ => .pure hf''
  rw [hw]
  exact .pure hsame

/-- A session is entered with a name that was not there, or it is rejected for its depth. -/
theorem open?_ends (hs : Settled e w) (ratio : Option Double) (label : Option String) :
    Exec.Ends (e.open? caller ratio label) w
      (fun r w' => match r with
        | .ok id => w.hierarchy.get? id = none ∧ ∃ p ratio,
          Enters w.hierarchy w'.hierarchy id p (Thread.nested id p ratio label e.now)
        | .error _ => w'.hierarchy = w.hierarchy)
      (fun _ _ => False) := by
  rcases hs.openPath.active_mem with ⟨p, hg⟩
  have hfresh := hs.fresh w.drawn (Nat.le_refl _)
  rcases enter_cases hs.openPath.toIsTree hg (e.supply w.drawn) ratio label e.now with
    ⟨_, hr⟩ | ⟨h', hr, he⟩
  · simp only [Exec.Ends, open?, hr]
    rfl
  · simp only [Exec.Ends, open?, hr]
    exact ⟨hfresh, p, _, he⟩

/-- A session that is entered is open, and one that is rejected leaves a blank. -/
theorem enterSession_keeps (hw : Settled e w) (hs : Stands g w.hierarchy f) (o : Opening) :
    Keeps P g (e.enterSession caller node o f) w := by
  refine Exec.ends_bind.2 ((open?_ends hw o.windowRatio o.label).mono (fun r w' h => ?_)
    fun _ _ h => h.elim)
  cases r with
  | ok id =>
    rcases h with ⟨hfresh, p, ratio, he⟩
    exact hs.enter hfresh he
  | error cause =>
    have hw' : w'.hierarchy = w.hierarchy := h
    refine (still_reject cause).keeps (f := { f with sessions := none :: f.sessions }) ?_
    rw [hw']
    exact hs.congr rfl rfl

include ht in
/-- Leaving pops the innermost session, skips a blank, or at top level closes the active session. -/
theorem leaveSession_keeps (hs : Stands g w.hierarchy f) {isTop : Bool}
    (htop : isTop = true → IsTree g.before ∧ ∀ b, g.base b) (summarize : Bool) :
    Keeps P g (e.leaveSession caller node isTop summarize f) w := by
  unfold leaveSession
  split
  · rename_i id rest hf
    exact (close_keeps ht hs hf summarize).mono (fun _ _ h => h.1) fun _ _ h => h
  · rename_i rest hf
    exact hs.congr rfl (by simp [Frame.opened, hf])
  · rename_i hf
    cases isTop with
    | false => exact (still_reject .noOpenSession).keeps hs
    | true =>
      -- without own sessions a walk at top level may close what was open before it
      rcases htop rfl with ⟨hbefore, hall⟩
      rcases hs.openPath.active_mem with ⟨t, hg⟩
      have hid : t.id = w.hierarchy.active := hs.openPath.id_eq hg
      simp only [if_true]
      rw [Keeps, Exec.ends_bind, Exec.ends_look, Exec.ends_bind, require_eq_ok hg, Exec.ends_ofExcept]
      cases hp : t.parent with
      | none =>
        simp only [Thread.isRoot, hp, Option.isNone_none, if_true]
        exact (still_reject .noOpenSession).keeps hs
      | some p =>
        simp only [Thread.isRoot, hp, Option.isNone_some, hid]
        have hopened : f.opened = [] := by rw [Frame.opened, hf]; rfl
        have hsink : ∀ h' f', Steady w.hierarchy h' → h'.active = p → f'.thread = p →
            f'.opened = f.opened → Stands g h' f' := fun h' f' => hs.sink hbefore hall hopened hg hp
        refine (close_ends ht hs.openPath hg hp summarize).mono ?_ ?_
        · intro f' w' h
          rcases h with ⟨hsteady, hactive, hthread, hsess⟩
          exact hsink _ f' hsteady hactive hthread (by rw [Frame.opened, hsess]; rfl)
        · intro c w' h
          rcases h with ⟨hc, hsteady, hactive⟩
          exact ⟨hc, (hsink _ { f with thread := p } hsteady hactive rfl rfl).rests⟩

/-! ## The other nodes -/

section

include ht

/-- A text that cannot be filled in is a failure that is admitted. -/
theorem still_render (source : String) :
    Still P (fun _ => True) (Exec.ofExcept (Template.render f.region source) : Exec σ String) := by
  refine .ofExcept (fun _ _ => trivial) ?_
  intro c hc
  rcases Template.render_error hc with ⟨path, rfl⟩
  exact ht.missing path

/-- The answer of the model is kept under a key that is not reserved. -/
theorem still_generate {gen : Generate} (hkey : isReserved gen.outputKey = false)
    (hschema : ∀ s, gen.schema = some s → e.Excuses P s) :
    Still P (f.SameWalk) (e.generate caller gen f) :=
  .bind (still_render ht _) fun _ _ => .bind (still_ask ht _ _ hschema _) fun v _ => .write hkey v

/-- So is that of a tool. -/
theorem still_useTool {t : ToolCall} (hkey : isReserved t.outputKey = false) :
    Still P (f.SameWalk) (e.useTool caller t f) := by
  refine .bind (Q := fun _ => True) (.ofExcept (fun _ _ => trivial) ?_) ?_
  · intro c hc
    rcases Template.resolveArgs_error hc with ⟨path, rfl⟩
    exact ht.missing path
  · intro args _
    exact .bind (.consult fun s c hc => ht.host.useTool s _ _ _ c hc) fun content _ =>
      .write hkey (toolValue content)

theorem still_remember (role content : String) (tags : List String) :
    Still P (fun _ => True) (e.remember caller role content tags f) :=
  .consult fun s c hc => ht.host.append s _ c hc

theorem still_reflect (source : String) : Still P (f.SameWalk) (e.reflect caller source f) :=
  .bind (still_render ht _) fun _ _ => .bind (still_remember ht _ _ _) fun _ _ => .pure ⟨rfl, rfl⟩

theorem still_record (isTop : Bool) (r : Recording) :
    Still P (f.SameWalk) (e.record caller node isTop r f) := by
  refine .bind (still_render ht _) fun content _ => .bind (still_remember ht _ _ _) ?_
  intro _ _
  split
  · exact .pure ⟨rfl, rfl⟩
  · exact .pure ⟨rfl, rfl⟩

/-- What is said is recorded in the active thread, which is there. -/
theorem emit_keeps (hs : Stands g w.hierarchy f) (source : String) :
    Keeps P g (e.emit caller node source f) w := by
  have hsame : ∀ {w' : World σ}, w'.hierarchy = w.hierarchy → Stands g w'.hierarchy f := by
    intro w' hw'
    rw [hw']
    exact hs
  refine Exec.ends_bind.2 ((still_render ht source w).mono ?_
    fun c w₁ h₁ => ⟨h₁.1, (hsame h₁.2).rests⟩)
  intro content w₁ h₁
  refine Exec.ends_bind.2 ((still_remember ht _ _ _ w₁).mono ?_
    fun c w₂ h₂ => ⟨h₂.1, (hsame (h₂.2.trans h₁.2)).rests⟩)
  intro _ w₂ h₂
  -- the memory does not touch the hierarchy, so the active thread is still there
  have hs₂ := hsame (h₂.2.trans h₁.2)
  have hthread : w₂.hierarchy.get? f.thread ≠ none := by
    rw [hs₂.thread]
    exact hs₂.active_ne_none
  rcases exists_recordIn hthread .assistant content [conversationTag] with ⟨h', hr⟩
  have hsteady := hs₂.openPath.recordIn hr
  rw [Exec.ends_bind, Exec.ends_onHierarchy, hr]
  have hs₃ : Stands g h' f :=
    hs₂.later hsteady.openPath hsteady.grows (recordIn_maps hr).active rfl rfl
  have hrest : Still P (f.SameWalk) (do
      Exec.consult (fun s => e.host.deliver s caller.agent.id content)
        (.delivered caller.agent.id content)
      Exec.change fun w => { w with fragments := w.fragments ++ [.emission node.id content] }
      Exec.publish caller.agent.id (.emitted content)
      pure (f.contribute ⟨node.id, .emission, content⟩) : Exec σ Frame) := by
    refine .bind (.consult fun s c hc => ht.host.deliver s _ _ c hc) ?_
    intro _ _
    refine .bind (.change fun _ => rfl) fun _ _ => .bind (.publish _ _) ?_
    intro _ _
    exact .pure ⟨rfl, rfl⟩
  exact hrest.keeps (w := { w₂ with hierarchy := h' }) hs₃

end

end Engine

end Playbook
