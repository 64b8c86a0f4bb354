import Playbook.Proofs.Run.Recovery

/-! # What a node leaves alone

A node lists the keys that it writes. When it is done, every other key has the value that it had, with one
exception: the message of a rejected operation is left under the key for errors, and of the nodes whose operation
may be rejected only those that enter a session always list that key.

Main statements: `Engine.call_footprint` says what a call leaves alone, and `Engine.footprint_of_dispatch` what
every node does, and when the exception is made.
-/

namespace Playbook

open Exec (Yields)

variable {σ : Type} {e : Engine σ} {caller : Caller} {node : Node} {level : Level σ} {f f' : Frame}
  {w w' : World σ} {step : Step} {cause : Error}

/-! ## Frames -/

/-- The frames have the same values under all keys but these. -/
def Frame.SameBeside (keys : List String) (f f' : Frame) : Prop :=
  ∀ key, key ∉ keys → f'.region.get? key = f.region.get? key

namespace Frame.SameBeside

variable {keys keys' : List String}

theorem of_region (h : f'.region = f.region) : f.SameBeside keys f' := fun key _ => congrArg (·.get? key) h

theorem mono (h : f.SameBeside keys f') (hsub : keys ⊆ keys') : f.SameBeside keys' f' :=
  fun key hkey => h key fun hin => hkey (hsub hin)

/-- Writing changes one key. -/
theorem of_write {key : String} {value : Json} (h : f.write key value = .ok f') : f.SameBeside [key] f' := by
  obtain ⟨r, hr, rfl⟩ := Checked.map_eq_ok.1 h
  rw [Region.insert] at hr
  split at hr
  · cases hr
  · cases hr
    exact fun other hother => Dict.get?_insert_of_ne _ (List.ne_of_not_mem_cons hother) value

end Frame.SameBeside

/-- A tolerated failure changes only the key for errors. -/
theorem Frame.Recovers.sameBeside (h : f.Recovers cause f') : f.SameBeside [errorKey] f' :=
  fun key hkey => h.region key (List.ne_of_not_mem_cons hkey)

/-! ## Rejected operations -/

/-- The operation of a node was rejected: its message is under the key for errors, and nothing but that and its
event is new. -/
structure Rejected (caller : Caller) (node : Node) (cause : Error) (f : Frame) (w : World σ) (f' : Frame)
    (w' : World σ) : Prop where
  rejection : cause.isRejection = true
  recovers : f.Recovers cause f'
  world : w' = { w with events := w.events ++ [⟨caller.agent.id, .operationRejected node.id cause.message⟩] }

namespace Engine

/-- A rejection that succeeds has left its mark, and nothing else. -/
theorem reject_ok (h : reject caller node cause f w = (.ok f', w')) (hcause : cause.isRejection = true) :
    Rejected caller node cause f w f' w' := by
  obtain ⟨g, hg, hrecovers⟩ := exists_reject caller node cause f w
  cases hg.symm.trans h
  exact ⟨hcause, hrecovers, rfl⟩

/-- A session that is rejected leaves the world as it was. -/
theorem open?_rejected {ratio : Option Double} {label : Option String}
    (h : e.open? caller ratio label w = (.ok (.error cause), w')) : cause.isRejection = true ∧ w' = w := by
  rw [open?] at h
  simp only at h
  split at h
  · cases h
  · split at h
    · cases h
      exact ⟨by assumption, rfl⟩
    · cases h

/-! ## Nodes that call nothing -/

/-- A prompt writes the key of its output. -/
theorem generate_footprint (g : Generate) (f : Frame) :
    Yields (f.SameBeside [g.outputKey]) (e.generate caller g f) :=
  .behind fun _ => .behind fun _ => .ofExcept fun _ h => .of_write h

/-- So does the use of a tool. -/
theorem useTool_footprint (t : ToolCall) (f : Frame) : Yields (f.SameBeside [t.outputKey]) (e.useTool caller t f) :=
  .behind fun _ => .behind fun _ => .ofExcept fun _ h => .of_write h

/-- An emission writes nothing. -/
theorem emit_footprint (node : Node) (source : String) (f : Frame) :
    Yields (f.SameBeside []) (e.emit caller node source f) :=
  .behind fun _ => .behind fun _ => .behind fun _ => .behind fun _ => .behind fun _ => .behind fun _ =>
    .pure (.of_region rfl)

theorem reflect_footprint (source : String) (f : Frame) :
    Yields (f.SameBeside []) (e.reflect caller source f) :=
  .behind fun _ => .behind fun _ => .pure (.of_region rfl)

theorem record_footprint (node : Node) (isTop : Bool) (r : Recording) (f : Frame) :
    Yields (f.SameBeside []) (e.record caller node isTop r f) := by
  refine .behind fun _ => .behind fun _ => ?_
  split
  · exact .pure (.of_region rfl)
  · exact .pure (.of_region rfl)

/-- Entering a session writes at most the key of errors. -/
theorem enterSession_footprint (o : Opening) (f : Frame) :
    Yields (f.SameBeside [errorKey]) (e.enterSession caller node o f) := by
  refine .behind fun entered => ?_
  cases entered with
  | ok id => exact .pure (.of_region rfl)
  | error cause =>
    have hwrite : ∀ g, { f with sessions := none :: f.sessions }.write errorKey (.str cause.message) = .ok g →
        f.SameBeside [errorKey] g := fun g hg => .of_write (f := { f with sessions := none :: f.sessions }) hg
    exact .bind (.ofExcept hwrite) fun _ hf => .behind fun _ => .pure hf

/-- Leaving a session writes nothing, unless there is none to be left. -/
theorem leaveSession_footprint {isTop summarize : Bool}
    (h : e.leaveSession caller node isTop summarize f w = (.ok f', w')) :
    f'.region = f.region ∨ Rejected caller node .noOpenSession f w f' w' := by
  cases hsessions : f.sessions with
  | cons entry rest =>
    cases entry with
    | some id =>
      simp only [leaveSession, hsessions] at h
      exact .inl ((close_frame id summarize { f with sessions := rest }).of_eq_ok h).1
    | none =>
      simp only [leaveSession, hsessions] at h
      cases h
      exact .inl rfl
  | nil =>
    simp only [leaveSession, hsessions] at h
    split at h
    · -- at top level the active session is closed, unless it is the root
      obtain ⟨hierarchy, w₁, hlook, hrest⟩ := Exec.bind_eq_ok.1 h
      cases hlook
      obtain ⟨t, w₂, hrequire, hleft⟩ := Exec.bind_eq_ok.1 hrest
      obtain ⟨_, rfl⟩ := Exec.ofExcept_eq_ok.1 hrequire
      split at hleft
      · exact .inr (reject_ok hleft rfl)
      · exact .inl ((close_frame t.id summarize f).of_eq_ok hleft).1
    · exact .inr (reject_ok h rfl)

/-! ## Calls -/

/-- Of a call that has ended the caller writes the result. -/
theorem absorb_footprint {c : Call} {inline : Bool} {done : WalkEnd}
    (h : absorb c inline done f = .ok (step, f')) : f.SameBeside c.outputKey.toList f' := by
  rcases absorb_cases h with ⟨_, _, rfl⟩ | ⟨_, _, g, hg, rfl⟩
  · exact .of_region rfl
  · have hsame : f.SameBeside c.outputKey.toList g := by
      rcases hg with ⟨_, rfl⟩ | ⟨key, hkey, hwrite⟩
      · exact .of_region rfl
      · rw [hkey]
        exact .of_write (f := f.resumed inline done) hwrite
    split <;> exact hsame

/-- A call writes its result, unless the session of its own that it asks for is rejected. -/
theorem call_footprint {c : Call} (h : e.call caller node c level f w = (.ok (step, f'), w')) :
    f.SameBeside c.outputKey.toList f' ∨
      c.mode = .isolated ∧ ∃ cause, Rejected caller node cause f w f' w' := by
  cases hprepare : e.prepare c level f with
  | error cause =>
    rw [call_of_error hprepare] at h
    cases h
  | ok prepared =>
    obtain ⟨callee, region, descend⟩ := prepared
    cases hmode : c.mode with
    | inline =>
      rw [call_inline hprepare hmode] at h
      obtain ⟨done, w₁, _, habsorb⟩ := Exec.bind_eq_ok.1 h
      exact .inl (absorb_footprint (Exec.ofExcept_eq_ok.1 habsorb).1)
    | isolated =>
      rw [call_isolated hprepare hmode] at h
      obtain ⟨entered, w₁, hopen, hrest⟩ := Exec.bind_eq_ok.1 h
      cases entered with
      | ok child =>
        obtain ⟨done, w₂, _, habsorb⟩ := Exec.bind_eq_ok.1 hrest
        exact .inl (absorb_footprint (Exec.ofExcept_eq_ok.1 habsorb).1)
      | error cause =>
        obtain ⟨hcause, rfl⟩ := open?_rejected hopen
        obtain ⟨g, w₂, hreject, hpure⟩ := Exec.bind_eq_ok.1 hrest
        cases hpure
        exact .inr ⟨rfl, cause, reject_ok hreject hcause⟩

/-- A call that says where to go when it fails lists the key for errors, and writes nothing else then. -/
theorem invoke_footprint {c : Call} (h : e.invoke caller node c level f w = (.ok (step, f'), w')) :
    f.SameBeside (c.outputKey.toList ++ if c.onFailure.isSome then [errorKey] else []) f' ∨
      (c.mode = .isolated ∧ c.onFailure = none) ∧ ∃ cause, Rejected caller node cause f w f' w' := by
  rw [invoke] at h
  cases hfailure : c.onFailure with
  | none =>
    rw [hfailure] at h
    rcases call_footprint h with hsame | ⟨hmode, hrejected⟩
    · exact .inl (hsame.mono (List.subset_append_left _ _))
    · exact .inr ⟨⟨hmode, rfl⟩, hrejected⟩
  | some target =>
    rw [hfailure] at h
    -- the key for errors is listed here, so a rejection inside the call is no exception either
    left
    obtain ⟨r, w₁, hattempt, hrest⟩ := Exec.bind_eq_ok.1 h
    cases r with
    | error cause =>
      obtain ⟨g, w₂, hwrite, hpure⟩ := Exec.bind_eq_ok.1 hrest
      cases hpure
      exact (Frame.SameBeside.of_write (Exec.ofExcept_eq_ok.1 hwrite).1).mono (List.subset_append_right _ _)
    | ok done =>
      cases hrest
      have hcall : e.call caller node c level f w = (.ok (step, f'), w') := by
        obtain ⟨hok, hworld⟩ := Prod.ext_iff.1 hattempt
        exact Prod.ext (Except.ok.inj hok) hworld
      rcases call_footprint hcall with hsame | ⟨_, cause, hrejected⟩
      · exact hsame.mono (List.subset_append_left _ _)
      · exact hrejected.recovers.sameBeside.mono (List.subset_append_right _ _)

end Engine

/-! ## Every node -/

/-- The operation of the node may be rejected, and the node does not count the message among its writes. -/
def Node.RejectsUnlisted (n : Node) : Prop :=
  match n.kind with
  | .leaveSession _ => True
  | .invoke c => c.mode = .isolated ∧ c.onFailure = none
  | _ => False

namespace Engine

/-- When a node is done, whatever it does and wherever it stands, the keys that it does not list have the values
that they had, unless its operation was rejected and it is one of those that do not count the message. -/
theorem footprint_of_dispatch (h : e.dispatch caller level node f w = (.ok (step, f'), w')) :
    f.SameBeside node.writes f' ∨
      node.RejectsUnlisted ∧ ∃ cause, Rejected caller node cause f w f' w' := by
  have hyields : ∀ {x : Exec σ Frame}, Yields (f.SameBeside node.writes) x →
      (x >>= fun f => pure (Step.proceed, f)) w = (.ok (step, f'), w') → f.SameBeside node.writes f' := by
    intro x hx hdone
    obtain ⟨g, w₁, hg, hpure⟩ := Exec.bind_eq_ok.1 hdone
    cases hpure
    exact hx.of_eq_ok hg
  -- taken apart, so that the writes of the node reduce with its kind
  rcases node with ⟨id, kind, next, branches⟩
  cases kind with
  | generate g => exact .inl (hyields (generate_footprint g f) h)
  | invokeTool t => exact .inl (hyields (useTool_footprint t f) h)
  | emit content => exact .inl (hyields (emit_footprint _ content f) h)
  | reflect content => exact .inl (hyields (reflect_footprint content f) h)
  | record r => exact .inl (hyields (record_footprint _ _ r f) h)
  | pass => exact .inl (hyields (.pure (.of_region rfl)) h)
  | enterSession o => exact .inl (hyields (enterSession_footprint o f) h)
  | invoke c => exact invoke_footprint h
  | leaveSession summarize =>
    obtain ⟨g, w₁, hleave, hpure⟩ := Exec.bind_eq_ok.1 h
    cases hpure
    rcases leaveSession_footprint hleave with hregion | hrejected
    · exact .inl (.of_region hregion)
    · exact .inr ⟨trivial, _, hrejected⟩

end Engine

/-! ## Messages that are not listed -/

namespace Tour

/-- Leaves a session where none was entered. -/
def departure : Node := ⟨"depart", .leaveSession false, none, []⟩

/-- The primary session alone, in which none may be nested. -/
def cabin : World Unit :=
  .start () (Hierarchy.new "agent" "cabin" 100 { Limits.default with maxDepth := 0 } default) 1 false

/-- What the node does first in the cabin, in a run that has just begun. -/
def inCabin (node : Node) : Except Error (Step × Frame) × World Unit :=
  engine.dispatch Outing.traveller (engine.level Outing.traveller engine.config.engine.maxCallDepth) node
    (.start .empty "cabin") cabin

/-- Where a walk in the cabin goes on after its operation was rejected. -/
def turnedBack (cause : Error) : Frame :=
  .start ⟨Dict.empty.insert errorKey (.str cause.message)⟩ "cabin"

theorem inCabin_departure : (inCabin departure).1 = .ok (.proceed, turnedBack .noOpenSession) := by
  decide +kernel

end Tour

/-- The departure is rejected, and nothing but the message and its event is new. -/
theorem Tour.departure_footprint :
    ∃ f' w', Tour.inCabin Tour.departure = (.ok (.proceed, f'), w') ∧
      ∃ cause, Rejected Outing.traveller Tour.departure cause (.start .empty "cabin") Tour.cabin f' w' := by
  have hdone : Tour.inCabin Tour.departure =
      (.ok (.proceed, Tour.turnedBack .noOpenSession), (Tour.inCabin Tour.departure).2) :=
    Prod.ext Tour.inCabin_departure rfl
  rcases Engine.footprint_of_dispatch hdone with hsame | ⟨_, hrejected⟩
  · cases hsame errorKey List.not_mem_nil
  · exact ⟨_, _, hdone, hrejected⟩

/-- Neither the departure nor the stay in a session of its own, which there is no room for, lists the message that
it leaves. -/
theorem Tour.message_unlisted :
    (errorKey ∉ Tour.departure.writes ∧ errorKey ∉ Tour.stay.writes) ∧
      (Frame.start .empty "cabin").region.get? errorKey = none ∧
      (∃ w', Tour.inCabin Tour.departure = (.ok (.proceed, Tour.turnedBack .noOpenSession), w') ∧
        (Tour.turnedBack .noOpenSession).region.get? errorKey = some (.str "No nested session to leave")) ∧
      ∃ w', Tour.inCabin Tour.stay = (.ok (.proceed, Tour.turnedBack (.depthExceeded 1 0)), w') ∧
        (Tour.turnedBack (.depthExceeded 1 0)).region.get? errorKey =
          some (.str (Error.depthExceeded 1 0).message) := by
  have hstay : (Tour.inCabin Tour.stay).1 = .ok (.proceed, Tour.turnedBack (.depthExceeded 1 0)) := by
    decide +kernel
  exact ⟨⟨by decide, by decide⟩, rfl, ⟨_, Prod.ext Tour.inCabin_departure rfl, rfl⟩, _, Prod.ext hstay rfl, rfl⟩

end Playbook
