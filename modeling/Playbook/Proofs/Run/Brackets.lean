import Mathlib.Combinatorics.Enumerative.DyckWord
import Playbook.Proofs.Node
import Playbook.Proofs.Run.Isolation

/-! # Sessions in brackets

A playbook that enters and leaves sessions in well-bracketed pairs gives back everything as it was, wherever the
limit of depth cuts in. A session that is entered beyond the limit is rejected and leaves a blank in its place, and
exactly the leave that belongs to it takes the blank away.

Main statements: `Midway.dispatch` says what one node does to a walk between brackets,
`Standing.exists_reached` that the walk comes to each of its nodes, and `Engine.cancelsOut_of_run` what it leaves
behind at the end, at top level and called inline.
-/

namespace Playbook

open Hierarchy

variable {σ : Type} {e : Engine σ} {caller : Caller} {node : Node} {f : Frame} {w w' : World σ}
  {h h' : Hierarchy}

/-! ## Lines of nodes -/

/-- From this goal on the nodes stand in a line: each one leads on to the next, and the last one nowhere. -/
def Definition.Line (d : Definition) : Option String → List Node → Prop
  | goal, [] => goal = none
  | goal, node :: rest =>
    (∃ id, goal = some id ∧ d.node? id = some node) ∧ node.branches = [] ∧ d.Line node.next rest

/-- The node enters a session, leaves one without a chronicle, says something that is always the same, or does
nothing. -/
def Node.IsPlain (n : Node) : Prop :=
  match n.kind with
  | .enterSession _ => True
  | .leaveSession summarize => summarize = false
  | .emit content => Template.references content = []
  | .pass => True
  | _ => False

/-- The bracket that the node is: an enter opens and a leave closes. -/
def Node.bracket? (n : Node) : Option DyckStep :=
  match n.kind with
  | .enterSession _ => some .U
  | .leaveSession _ => some .D
  | _ => none

def brackets (ns : List Node) : List DyckStep := ns.filterMap Node.bracket?

/-- How many of the brackets are open behind the nodes. -/
def nesting (ns : List Node) : Nat := (brackets ns).count .U - (brackets ns).count .D

/-- The nodes of the playbook are plain and stand in a line, and their brackets are balanced. -/
structure Definition.IsBracketed (d : Definition) (ns : List Node) : Prop where
  line : d.Line (some d.start) ns
  plain : ∀ n ∈ ns, n.IsPlain
  balanced : ∃ word : DyckWord, word.toList = brackets ns

/-! ### Counting brackets -/

/-- The node leads from one number of open brackets to another; where it closes one, one is open. -/
def Node.Nests (n : Node) (k k' : Nat) : Prop :=
  match n.bracket? with
  | some .U => k' = k + 1
  | some .D => k = k' + 1
  | none => k' = k

/-- Between balanced brackets a leave always finds one that is open. -/
theorem nests_nesting {done todo : List Node} (hbalanced : ∃ word : DyckWord,
    word.toList = brackets (done ++ node :: todo)) :
    node.Nests (nesting done) (nesting (done ++ [node])) := by
  obtain ⟨word, hword⟩ := hbalanced
  have hprefix : ∀ ns rest, done ++ node :: todo = ns ++ rest →
      (brackets ns).count .D ≤ (brackets ns).count .U := by
    intro ns rest hsplit
    have hle := word.count_D_le_count_U (brackets ns).length
    rwa [hword, hsplit, brackets, brackets, List.filterMap_append, List.take_left] at hle
  have hdone := hprefix done _ rfl
  have hnode := hprefix (done ++ [node]) todo (by rw [List.append_assoc, List.singleton_append])
  have hconcat : brackets (done ++ [node]) = brackets done ++ node.bracket?.toList := by
    rw [brackets, List.filterMap_append, brackets, List.filterMap_cons]
    cases node.bracket? <;> rfl
  rw [hconcat, List.count_append, List.count_append] at hnode
  rw [Node.Nests, nesting, nesting, hconcat, List.count_append, List.count_append]
  cases hbracket : node.bracket? with
  | none =>
    rw [Option.toList_none, List.count_nil, List.count_nil, Nat.add_zero, Nat.add_zero]
  | some step =>
    rw [hbracket] at hnode
    cases step with
    | U =>
      have hup : [DyckStep.U].count .U = 1 ∧ [DyckStep.U].count .D = 0 := ⟨rfl, rfl⟩
      rw [Option.toList_some, hup.1, hup.2] at hnode ⊢
      simp only
      omega
    | D =>
      have hdown : [DyckStep.D].count .U = 0 ∧ [DyckStep.D].count .D = 1 := ⟨rfl, rfl⟩
      rw [Option.toList_some, hdown.1, hdown.2] at hnode ⊢
      simp only
      omega

theorem nesting_eq_zero {ns : List Node} (hbalanced : ∃ word : DyckWord, word.toList = brackets ns) :
    nesting ns = 0 := by
  obtain ⟨word, hword⟩ := hbalanced
  have heq := word.count_U_eq_count_D
  rw [hword] at heq
  rw [nesting, heq, Nat.sub_self]

/-! ### Texts without references -/

/-- A text that refers to nothing can always be rendered. -/
theorem Template.exists_render {source : String} (hsource : references source = []) (r : Region) :
    ∃ text, render r source = .ok text := by
  have hnone : occurrences source = [] := by rwa [references_eq, List.map_eq_nil_iff] at hsource
  refine ⟨_, render_eq_ok.2 ⟨?_, rfl⟩⟩
  rw [hnone]
  exact fun o ho => absurd ho List.not_mem_nil

/-! ## Threads that are added -/

/-- The second hierarchy has the threads of the first one and these, which are new. -/
structure Hierarchy.Adds (h h' : Hierarchy) (ids : List ThreadId) : Prop where
  new : ∀ id ∈ ids, h.get? id = none
  mem : ∀ id, h'.get? id ≠ none ↔ h.get? id ≠ none ∨ id ∈ ids

theorem Hierarchy.Adds.refl (h : Hierarchy) : h.Adds h [] := ⟨List.forall_mem_nil _, fun id => by simp⟩

theorem Hierarchy.Maps.adds {active : ThreadId} {g : ThreadId → Thread → Thread} (hm : Maps h h' active g) :
    h.Adds h' [] where
  new := List.forall_mem_nil _
  mem id := by
    rw [hm.get?, ne_eq, Option.map_eq_none_iff]
    simp

theorem Hierarchy.Enters.adds {id : ThreadId} {p child : Thread} (hfresh : h.get? id = none)
    (he : Enters h h' id p child) : h.Adds h' [id] where
  new := by
    rintro x hx
    rw [List.mem_singleton.1 hx]
    exact hfresh
  mem x := by
    by_cases hx : x = id
    · simp [hx, he.get?_new]
    · rw [he.get?_old hx, ne_eq, Option.map_eq_none_iff]
      simp [hx]

/-! ## Between brackets -/

/-- The host remembers and delivers what it is given, and nobody cancels the run meanwhile. -/
structure Host.Obliges (host : Host σ) : Prop where
  append : ∀ s entry, (host.append s entry).result = .ok () ∧ (host.append s entry).cancels = false
  deliver : ∀ s agent content, (host.deliver s agent content).result = .ok () ∧
    (host.deliver s agent content).cancels = false
  interrupts : ∀ s events, host.interrupts s events = false

/-- A run that is not cancelled goes on. -/
theorem Host.Obliges.not_stops {host : Host σ} (h : host.Obliges) (hrunning : w.cancelled = false) :
    w.stops host = false := by
  rw [World.stops, hrunning, h.interrupts, Bool.or_false]

/-- A call of the host that succeeds does not touch the hierarchy. -/
theorem Exec.exists_consult {α : Type} (call : σ → Reply σ α) {a : α} (note : Except Error α → Interaction)
    (h : (call w.host).result = .ok a ∧ (call w.host).cancels = false) :
    ∃ w', consult call note w = (.ok a, w') ∧ w'.hierarchy = w.hierarchy ∧ w'.cancelled = w.cancelled :=
  ⟨(consult call note w).2, Prod.ext h.1 rfl, rfl, (congrArg (w.cancelled || ·) h.2).trans (Bool.or_false _)⟩

/-- Where the host obliges, a text that can be rendered is said and recorded. -/
theorem Engine.exists_emit (hhost : e.host.Obliges) (caller : Caller) (node : Node) {source text : String}
    (htext : Template.render f.region source = .ok text)
    (hrecord : w.hierarchy.recordIn f.thread .assistant text [conversationTag] = .ok h') :
    ∃ w', e.emit caller node source f w = (.ok (f.contribute ⟨node.id, .emission, text⟩), w') ∧
      w'.hierarchy = h' ∧ w'.cancelled = w.cancelled := by
  let entry : MemoryEntry :=
    { agent := caller.agent.id, role := Role.assistant.name, content := text, tags := [conversationTag]
      thread := some f.thread, time := e.now }
  obtain ⟨w₁, hremember, hsame₁, hcancelled₁⟩ :=
    Exec.exists_consult (fun s => e.host.append s entry) (.appended entry) (hhost.append w.host entry)
  obtain ⟨w₂, hdeliver, hsame₂, hcancelled₂⟩ :=
    Exec.exists_consult (w := { w₁ with hierarchy := h' }) (fun s => e.host.deliver s caller.agent.id text)
      (.delivered caller.agent.id text) (hhost.deliver w₁.host caller.agent.id text)
  have hnoted : Exec.onHierarchy (fun h => h.recordIn f.thread .assistant text [conversationTag]) w₁ =
      (.ok (), { w₁ with hierarchy := h' }) := by
    rw [Exec.onHierarchy, hsame₁, hrecord]
  refine ⟨_, Exec.bind_eq_ok.2 ⟨text, w, by rw [htext]; rfl, Exec.bind_eq_ok.2 ⟨(), w₁, hremember,
    Exec.bind_eq_ok.2 ⟨(), _, hnoted, Exec.bind_eq_ok.2 ⟨(), w₂, hdeliver, rfl⟩⟩⟩⟩, hsame₂, ?_⟩
  exact hcancelled₂.trans hcancelled₁

/-- A walk between brackets, seen from the hierarchy in which it started in a thread of this depth. Of the `k`
brackets that are open the outer ones stand for sessions that there was room for, and the others for blanks. -/
structure Midway (e : Engine σ) (h : Hierarchy) (depth k : Nat) (f : Frame) (w : World σ) : Prop where
  settled : Settled e w
  running : w.cancelled = false
  stands : Stands (.under h h.active) w.hierarchy f
  opened : f.opened.length = min k (h.limits.maxDepth - depth)
  sessions : f.sessions = List.replicate (k - (h.limits.maxDepth - depth)) none ++ f.opened.map some
  unaborted : ∀ id t, h.get? id = none → w.hierarchy.get? id = some t → t.status ≠ .aborted

namespace Midway

variable {depth k k' : Nat} {f' : Frame}

theorem start (hw : Settled e w) (hrunning : w.cancelled = false) (region : Region) (depth : Nat) :
    Midway e w.hierarchy depth 0 (.start region w.hierarchy.active) w where
  settled := hw
  running := hrunning
  stands := .start hw.openPath rfl region
  opened := by rw [Nat.zero_min]; rfl
  sessions := by rw [Nat.zero_sub]; rfl
  unaborted := fun id t hnone hg => by
    rw [hnone] at hg
    cases hg

/-- What is only told or noted makes no difference. -/
theorem congr (hm : Midway e h depth k f w) (hhierarchy : w'.hierarchy = w.hierarchy) (hdrawn : w'.drawn = w.drawn)
    (hcancelled : w'.cancelled = w.cancelled) : Midway e h depth k f w' where
  settled := ⟨hhierarchy ▸ hm.settled.openPath, by
    rw [hhierarchy, hdrawn]
    exact hm.settled.fresh⟩
  running := hcancelled.trans hm.running
  stands := hhierarchy ▸ hm.stands
  opened := hm.opened
  sessions := hm.sessions
  unaborted := hhierarchy ▸ hm.unaborted

/-- The active thread lies below the one in which the walk started, by as many sessions as are open. -/
theorem active_depth (hm : Midway e h depth k f w) {t : Thread} (ht : h.get? h.active = some t) :
    ∃ u, w.hierarchy.get? w.hierarchy.active = some u ∧ u.depth = t.depth + f.opened.length := by
  obtain ⟨b, rfl, _, hline⟩ := hm.stands.resting
  obtain ⟨u, hu⟩ := hm.stands.openPath.active_mem
  obtain ⟨t', ht', hgrows⟩ := hm.stands.grows.thread ht
  refine ⟨u, hu, ?_⟩
  have hlength := congrArg List.length hline
  have htree := hm.stands.openPath.toIsTree
  rw [lineage, lineage, List.length_append, List.length_map, List.length_map, List.length_reverse,
    htree.length_pathTo hu, htree.length_pathTo ht', hgrows.depth] at hlength
  omega

/-! ### Brackets that open and close -/

/-- Where there is no room, a blank stands for the session. -/
theorem blank (hm : Midway e h depth k f w) (hfull : h.limits.maxDepth - depth ≤ k) (hsettled : Settled e w')
    (hhierarchy : w'.hierarchy = w.hierarchy) (hcancelled : w'.cancelled = w.cancelled) {cause : Error}
    (hrecovers : Frame.Recovers cause { f with sessions := none :: f.sessions } f') :
    Midway e h depth (k + 1) f' w' := by
  have hopened := hm.opened
  have hblank : f'.opened = f.opened := by
    rw [Frame.opened, hrecovers.sessions]
    rfl
  refine ⟨hsettled, hcancelled.trans hm.running, hhierarchy ▸ hm.stands.congr hrecovers.thread hblank, ?_, ?_,
    hhierarchy ▸ hm.unaborted⟩
  · rw [hblank]
    omega
  · rw [hrecovers.sessions, hblank, hm.sessions, Nat.succ_sub hfull]
    rfl

/-- Where there is room, the session is the innermost one. -/
theorem nest (hm : Midway e h depth k f w) (hroom : k < h.limits.maxDepth - depth) {id : ThreadId} {p : Thread}
    {ratio : Double} {label : Option String} {now : Time} (hfresh : w.hierarchy.get? id = none)
    (he : Enters w.hierarchy w'.hierarchy id p (.nested id p ratio label now)) (hsettled : Settled e w')
    (hcancelled : w'.cancelled = w.cancelled) :
    Midway e h depth (k + 1) { f with sessions := some id :: f.sessions, thread := id } w' := by
  have hopened := hm.opened
  refine ⟨hsettled, hcancelled.trans hm.running, hm.stands.enter hfresh he, ?_, ?_, ?_⟩
  · show f.opened.length + 1 = _
    omega
  · show some id :: f.sessions = _ ++ some id :: f.opened.map some
    rw [hm.sessions, Nat.sub_eq_zero_of_le hroom.le, Nat.sub_eq_zero_of_le hroom]
    rfl
  · intro x t hnone hg
    by_cases hx : x = id
    · rw [hx, he.get?_new] at hg
      cases hg
      intro haborted
      cases haborted
    · rw [he.get?_old hx] at hg
      obtain ⟨u, hu, rfl⟩ := Option.map_eq_some_iff.1 hg
      have hstatus : (if x = w.hierarchy.active then u.push (.anchor id) else u).status = u.status := by
        split <;> rfl
      rw [hstatus]
      exact hm.unaborted x u hnone hu

/-- The innermost bracket is open for a blank, which may be taken away. -/
theorem unblank (hm : Midway e h depth (k + 1) f w) (hfull : h.limits.maxDepth - depth ≤ k) :
    ∃ rest, f.sessions = none :: rest ∧ Midway e h depth k { f with sessions := rest } w := by
  have hopened := hm.opened
  obtain ⟨rest, hf, hrest⟩ : ∃ rest, f.sessions = none :: rest ∧
      rest = List.replicate (k - (h.limits.maxDepth - depth)) none ++ f.opened.map some := by
    refine ⟨_, ?_, rfl⟩
    rw [hm.sessions, Nat.succ_sub hfull]
    rfl
  have hsame : ({ f with sessions := rest } : Frame).opened = f.opened := by
    rw [Frame.opened, Frame.opened, hf]
    rfl
  refine ⟨rest, hf, hm.settled, hm.running, hm.stands.congr rfl hsame, ?_, ?_, hm.unaborted⟩
  · rw [hsame]
    omega
  · rw [hsame]
    exact hrest

/-- The innermost bracket is open for the active session, which can be completed. -/
theorem unnest (hm : Midway e h depth (k + 1) f w) (hroom : k < h.limits.maxDepth - depth) (now : Time) :
    ∃ rest h', f.sessions = some w.hierarchy.active :: rest ∧
      w.hierarchy.leave w.hierarchy.active none now = .ok h' ∧
      ∀ w', w'.hierarchy = h' → Settled e w' → w'.cancelled = w.cancelled →
        Midway e h depth k { f with sessions := rest, thread := h'.active } w' := by
  have hopened := hm.opened
  obtain ⟨id, rest, hids⟩ : ∃ id rest, f.opened = id :: rest :=
    List.exists_cons_of_length_pos (by omega)
  have hf : f.sessions = some id :: rest.map some := by
    rw [hm.sessions, Nat.sub_eq_zero_of_le hroom, hids]
    rfl
  -- with room at this nesting the innermost entry of the stack is the active session
  obtain ⟨rfl, t, p, hg, hp, hpop⟩ := hm.stands.pop hf
  obtain ⟨h', hleave⟩ := exists_leave hg hp none now
  refine ⟨_, h', hf, hleave, ?_⟩
  rintro w' rfl hsettled hcancelled
  obtain ⟨_, t', p', hg', hp', hmaps⟩ := leave_maps hleave
  cases hg.symm.trans hg'
  cases hp.symm.trans hp'
  have hpopped : ({ f with sessions := rest.map some, thread := w'.hierarchy.active } : Frame).opened = rest := by
    rw [Frame.opened, List.filterMap_map]
    exact List.filterMap_some
  have hlength := congrArg List.length hids
  rw [List.length_cons] at hlength
  refine ⟨hsettled, hcancelled.trans hm.running,
    hpop _ _ (hm.stands.openPath.leave hleave) hmaps.active hmaps.active rfl, ?_, ?_, ?_⟩
  · rw [hpopped]
    omega
  · rw [hpopped, Nat.sub_eq_zero_of_le hroom.le]
    rfl
  · intro x u' hnone hu'
    -- the session that is left is completed and not aborted
    obtain ⟨u, hu, rfl⟩ := hmaps.some_right hu'
    split
    · intro haborted
      cases haborted
    · exact hm.unaborted x u hnone hu

/-! ### One node -/

section

variable (hinj : Function.Injective e.supply) {t : Thread}
include hinj

/-- Where there is room the session is entered, and where there is none it is rejected. -/
theorem enterSession (hm : Midway e h t.depth k f w) (ht : h.get? h.active = some t) (caller : Caller)
    (node : Node) (o : Opening) :
    ∃ f' w' ids, e.enterSession caller node o f w = (.ok f', w') ∧ Midway e h t.depth (k + 1) f' w' ∧
      w.hierarchy.Adds w'.hierarchy ids ∧
      ids.length = if k + 1 ≤ h.limits.maxDepth - t.depth then 1 else 0 := by
  obtain ⟨u, hu, hdepth⟩ := hm.active_depth ht
  have hopened := hm.opened
  have hlimits : w.hierarchy.limits = h.limits := hm.stands.grows.limits
  have hsettled : Settled e (e.enterSession caller node o f w).2 :=
    ((Engine.acts_enterSession o w).settled hinj hm.settled).1
  rcases enter_cases hm.stands.openPath.toIsTree hu (e.supply w.drawn) o.windowRatio o.label e.now with
    ⟨hdeep, hrejected⟩ | ⟨h', hentered, he⟩
  · -- too deep: the rejection leaves a marker on the stack
    rw [hlimits] at hdeep
    obtain ⟨f', hreject, hrecovers⟩ := Engine.exists_reject caller node
      (.depthExceeded (u.depth + 1) w.hierarchy.limits.maxDepth) { f with sessions := none :: f.sessions } w
    have hx : e.enterSession caller node o f w = Engine.reject caller node
        (.depthExceeded (u.depth + 1) w.hierarchy.limits.maxDepth) { f with sessions := none :: f.sessions } w := by
      rw [Engine.enterSession, Exec.bind_run]
      simp only [Engine.open?, hrejected]
      rfl
    rw [hreject] at hx
    rw [hx] at hsettled
    refine ⟨f', _, [], hx, hm.blank (by omega) hsettled rfl rfl hrecovers, .refl _, ?_⟩
    rw [if_neg (by omega)]
    rfl
  · -- the entry leaves the new session on the stack
    have hroom := he.depth_lt
    rw [hlimits] at hroom
    have hfresh := hm.settled.fresh w.drawn (Nat.le_refl _)
    obtain ⟨w', hx, rfl, hcancelled⟩ : ∃ w', e.enterSession caller node o f w =
        (.ok { f with sessions := some (e.supply w.drawn) :: f.sessions, thread := e.supply w.drawn }, w') ∧
          w'.hierarchy = h' ∧ w'.cancelled = w.cancelled := by
      rw [Engine.enterSession, Exec.bind_run]
      simp only [Engine.open?, hentered]
      exact ⟨_, rfl, rfl, rfl⟩
    rw [hx] at hsettled
    refine ⟨_, w', [e.supply w.drawn], hx, hm.nest (by omega) hfresh he hsettled hcancelled, he.adds hfresh, ?_⟩
    rw [if_pos (by omega)]
    rfl

/-- Leaving takes the blank away or completes the session, whichever was entered last. -/
theorem leaveSession (hm : Midway e h depth (k + 1) f w) (caller : Caller) (node : Node) (isTop : Bool) :
    ∃ f' w', e.leaveSession caller node isTop false f w = (.ok f', w') ∧ Midway e h depth k f' w' ∧
      w.hierarchy.Adds w'.hierarchy [] := by
  by_cases hfull : h.limits.maxDepth - depth ≤ k
  · -- its entry was rejected, so only the marker goes
    obtain ⟨rest, hf, hmid⟩ := hm.unblank hfull
    have hx : e.leaveSession caller node isTop false f w = (.ok { f with sessions := rest }, w) := by
      simp only [Engine.leaveSession, hf]
      rfl
    exact ⟨_, w, hx, hmid, .refl _⟩
  · -- its entry left a session, which is closed
    obtain ⟨rest, h', hf, hleave, hmid⟩ := hm.unnest (Nat.lt_of_not_le hfull) e.now
    have hsettled : Settled e (e.leaveSession caller node isTop false f w).2 :=
      ((Engine.acts_leaveSession isTop false w).settled hinj hm.settled).1
    obtain ⟨w', hx, rfl, hcancelled⟩ : ∃ w', e.leaveSession caller node isTop false f w =
        (.ok { f with sessions := rest, thread := h'.active }, w') ∧
          w'.hierarchy = h' ∧ w'.cancelled = w.cancelled := by
      simp only [Engine.leaveSession, hf, Engine.close, Bool.false_eq_true, if_false, Engine.complete_eq, hleave]
      exact ⟨_, rfl, rfl, rfl⟩
    rw [hx] at hsettled
    obtain ⟨_, _, _, _, _, hmaps⟩ := leave_maps hleave
    exact ⟨_, w', hx, hmid w' rfl hsettled hcancelled, hmaps.adds⟩

/-- What is said is recorded, and the walk stands where it stood. -/
theorem emit (hhost : e.host.Obliges) (hm : Midway e h depth k f w) (caller : Caller) (node : Node)
    {source : String} (hsource : Template.references source = []) :
    ∃ f' w', e.emit caller node source f w = (.ok f', w') ∧ Midway e h depth k f' w' ∧
      w.hierarchy.Adds w'.hierarchy [] := by
  have hsettled : Settled e (e.emit caller node source f w).2 :=
    ((Engine.acts_emit source w).settled hinj hm.settled).1
  obtain ⟨text, htext⟩ := Template.exists_render hsource f.region
  have hthread : w.hierarchy.get? f.thread ≠ none := by
    rw [hm.stands.thread]
    exact hm.stands.active_ne_none
  obtain ⟨h', hrecord⟩ := exists_recordIn hthread .assistant text [conversationTag]
  -- the message that is recorded changes neither the tree nor a status
  have hsteady := hm.stands.openPath.recordIn hrecord
  have hmaps := recordIn_maps hrecord
  obtain ⟨w', hx, rfl, hcancelled⟩ := Engine.exists_emit hhost caller node htext hrecord
  refine ⟨_, w', hx, ?_, hmaps.adds⟩
  rw [hx] at hsettled
  refine ⟨hsettled, hcancelled.trans hm.running,
    hm.stands.later hsteady.openPath hsteady.grows hmaps.active rfl rfl, hm.opened, hm.sessions, ?_⟩
  intro id u' hnone hu'
  obtain ⟨u, hu, rfl⟩ := hmaps.some_right hu'
  have hstatus : (if id = f.thread then u.push (.message .assistant text [conversationTag]) else u).status =
      u.status := by split <;> rfl
  rw [hstatus]
  exact hm.unaborted id u hnone hu

/-- A plain node leads the walk on between brackets, and adds a thread only where it enters a session that there is
room for. -/
theorem dispatch (hhost : e.host.Obliges) (hm : Midway e h t.depth k f w) (ht : h.get? h.active = some t)
    (caller : Caller) (level : Level σ) (hplain : node.IsPlain) (hnests : node.Nests k k') :
    ∃ f' w' ids, e.dispatch caller level node f w = (.ok (.proceed, f'), w') ∧ Midway e h t.depth k' f' w' ∧
      w.hierarchy.Adds w'.hierarchy ids ∧
      ids.length = if node.bracket? = some .U ∧ k' ≤ h.limits.maxDepth - t.depth then 1 else 0 := by
  rcases node with ⟨id, kind, next, branches⟩
  cases kind with
  | enterSession o =>
    obtain rfl : k' = k + 1 := hnests
    obtain ⟨f', w', ids, hx, hmid, hadds, hlength⟩ :=
      hm.enterSession hinj ht caller ⟨id, _, next, branches⟩ o
    refine ⟨f', w', ids, Exec.bind_eq_ok.2 ⟨f', w', hx, rfl⟩, hmid, hadds, ?_⟩
    simpa [Node.bracket?] using hlength
  | leaveSession summarize =>
    obtain rfl : summarize = false := hplain
    obtain rfl : k = k' + 1 := hnests
    obtain ⟨f', w', hx, hmid, hadds⟩ := hm.leaveSession hinj caller ⟨id, _, next, branches⟩ (level.depth == 0)
    exact ⟨f', w', [], Exec.bind_eq_ok.2 ⟨f', w', hx, rfl⟩, hmid, hadds, by simp [Node.bracket?]⟩
  | emit source =>
    obtain rfl : k' = k := hnests
    obtain ⟨f', w', hx, hmid, hadds⟩ := hm.emit hinj hhost caller ⟨id, _, next, branches⟩ hplain
    exact ⟨f', w', [], Exec.bind_eq_ok.2 ⟨f', w', hx, rfl⟩, hmid, hadds, by simp [Node.bracket?]⟩
  | pass =>
    obtain rfl : k' = k := hnests
    exact ⟨f, w, [], rfl, hm, .refl _, by simp [Node.bracket?]⟩
  | _ => exact hplain.elim

end

end Midway

/-! ## Along the line -/

theorem Node.goal?_of_branches_nil (hbranches : node.branches = []) (f : Frame) :
    node.goal? (.proceed, f) = node.next := by
  rw [goal?, successor?, hbranches]
  rfl

/-- From the start of its line a walk comes here when these nodes are done and those are still to do. -/
structure Standing.Reaches (e : Engine σ) (caller : Caller) (t : Thread) (p : Standing σ) (done todo : List Node)
    (q : Standing σ) : Prop where
  visits : Visits e caller p q
  rest : q.rest e caller = p.rest e caller
  calls : q.calls = p.calls
  playbook : q.playbook = p.playbook
  made : q.made = done.length
  line : q.playbook.Line (some q.node) todo
  midway : Midway e p.world.hierarchy t.depth (nesting done) q.frame q.world

namespace Standing

variable {p q : Standing σ} {t : Thread} {done todo : List Node}

theorem Reaches.dispatches (hhost : e.host.Obliges) (hq : p.Reaches e caller t done (node :: todo) q)
    (hsteps : done.length < e.config.engine.maxSteps) : q.Dispatches e node := by
  obtain ⟨⟨id, hid, hnode⟩, _⟩ := hq.line
  cases hid
  exact ⟨hhost.not_stops hq.midway.running, hq.made ▸ hsteps, hnode⟩

section

variable (hinj : Function.Injective e.supply) (hhost : e.host.Obliges)
  (ht : p.world.hierarchy.get? p.world.hierarchy.active = some t)
include hinj hhost ht

/-- What the next node does. -/
theorem Reaches.outcome (hq : p.Reaches e caller t done (node :: todo) q) (hplain : node.IsPlain)
    (hbalanced : ∃ word : DyckWord, word.toList = brackets (done ++ node :: todo)) :
    ∃ f' w' ids, q.outcome e caller node = (.ok (.proceed, f'), w') ∧
      Midway e p.world.hierarchy t.depth (nesting (done ++ [node])) f' w' ∧
      q.world.hierarchy.Adds w'.hierarchy ids ∧
      ids.length = if node.bracket? = some .U ∧
        nesting (done ++ [node]) ≤ p.world.hierarchy.limits.maxDepth - t.depth then 1 else 0 := by
  have hannounced : Midway e p.world.hierarchy t.depth (nesting done) q.frame (q.announced caller node) :=
    hq.midway.congr rfl rfl rfl
  exact hannounced.dispatch hinj hhost ht caller _ hplain (nests_nesting hbalanced)

/-- Behind each node the walk comes to the next one. -/
theorem Reaches.next {node' : Node} (hq : p.Reaches e caller t done (node :: node' :: todo) q)
    (hplain : node.IsPlain) (hbalanced : ∃ word : DyckWord, word.toList = brackets (done ++ node :: node' :: todo))
    (hsteps : done.length < e.config.engine.maxSteps) :
    ∃ q', p.Reaches e caller t (done ++ [node]) (node' :: todo) q' := by
  have hdisp := hq.dispatches hhost hsteps
  obtain ⟨f', w', _, hx, hmid, _⟩ := hq.outcome hinj hhost ht hplain hbalanced
  obtain ⟨_, hbranches, hline⟩ := hq.line
  obtain ⟨⟨id, hnext, hnode'⟩, hrest⟩ := hline
  have hgoal : node.goal? (.proceed, f') = some id := (Node.goal?_of_branches_nil hbranches f').trans hnext
  refine ⟨q.onward e caller node f' id w', hq.visits.tail (.onward hdisp hx hgoal), ?_, hq.calls, hq.playbook, ?_,
    ⟨⟨id, rfl, hnode'⟩, hrest⟩, hmid.congr rfl rfl rfl⟩
  · rw [← hq.rest, rest_of_dispatches hdisp, hx]
    simp only [hgoal]
  · rw [List.length_append, List.length_singleton]
    exact congrArg (· + 1) hq.made

/-- The walk comes to every node of its line. -/
theorem exists_reached {ns : List Node} (hstart : p.Reaches e caller t [] ns p) (hplain : ∀ n ∈ ns, n.IsPlain)
    (hbalanced : ∃ word : DyckWord, word.toList = brackets ns) (hsteps : ns.length ≤ e.config.engine.maxSteps)
    {done todo : List Node} (hns : ns = done ++ node :: todo) :
    ∃ q, p.Reaches e caller t done (node :: todo) q := by
  induction done using List.reverseRecOn generalizing node todo with
  | nil =>
    rw [hns] at hstart
    exact ⟨p, hstart⟩
  | append_singleton done last ih =>
    rw [List.append_assoc, List.singleton_append] at hns
    obtain ⟨q, hq⟩ := ih hns
    have hlength := congrArg List.length hns
    rw [List.length_append, List.length_cons] at hlength
    have hlast : last ∈ ns := hns ▸ List.mem_append_right _ List.mem_cons_self
    exact hq.next hinj hhost ht (hplain last hlast) (hns ▸ hbalanced) (by omega)

end

end Standing

/-! ## What is left behind -/

/-- The brackets of a walk have cancelled out: the same thread is active as at its start, what was there is as open
or closed as it was, and what was created is completed. Every enter that there was room for has created one thread,
and no other node has created any. -/
structure CancelsOut (e : Engine σ) (caller : Caller) (p : Standing σ) (ns : List Node) (h' : Hierarchy) :
    Prop where
  active : h'.active = p.world.hierarchy.active
  kept : ∀ id t, p.world.hierarchy.get? id = some t → ∃ t', h'.get? id = some t' ∧ t'.status = t.status
  completed : ∀ id t', p.world.hierarchy.get? id = none → h'.get? id = some t' → t'.status = .completed
  created : ∀ t, p.world.hierarchy.get? p.world.hierarchy.active = some t →
    ∀ done node todo, ns = done ++ node :: todo →
      ∃ q ids, Visits e caller p q ∧ q.calls = p.calls ∧ q.made = done.length ∧ q.Dispatches e node ∧
        q.world.hierarchy.Adds (q.outcome e caller node).2.hierarchy ids ∧
        ids.length = if node.bracket? = some .U ∧
          t.depth + nesting (done ++ [node]) ≤ p.world.hierarchy.limits.maxDepth then 1 else 0

/-- When all brackets are closed again, the walk has closed what it has opened. -/
theorem Midway.closed {depth : Nat} (hm : Midway e h depth 0 f w) (ho : OpenPath h) :
    f.thread = h.active ∧ f.sessions = [] ∧ h.Restored w.hierarchy ∧
      ∀ id t, h.get? id = none → w.hierarchy.get? id = some t → t.status = .completed := by
  have hnone : f.opened = [] := by
    rw [← List.length_eq_zero_iff, hm.opened, Nat.zero_min]
  obtain ⟨b, rfl, hbefore, hline⟩ := hm.stands.resting
  rw [hnone, List.reverse_nil, List.append_nil] at hline
  have hopen := hm.stands.openPath
  obtain ⟨t, ht⟩ := Option.ne_none_iff_exists'.1 (hm.stands.grows.isSome hbefore)
  obtain ⟨u, hu⟩ := hopen.active_mem
  -- two threads with the same way to them are one
  have hactive : w.hierarchy.active = h.active :=
    hopen.eq_of_mem_lineage (hline ▸ hopen.self_mem_lineage hu) (hline ▸ hopen.self_mem_lineage ht)
  have hrestored : h.Restored w.hierarchy := .of_grows ho hopen hm.stands.grows hactive
  refine ⟨hm.stands.thread.trans hactive, ?_, hrestored, ?_⟩
  · rw [hm.sessions, hnone, Nat.zero_sub]
    rfl
  · intro id t hnew hg
    exact (hrestored.created_closed id t hnew hg).resolve_right (hm.unaborted id t hnew hg)

/-- A walk along balanced brackets completes, and they cancel out. -/
theorem Standing.start_cancelsOut (hinj : Function.Injective e.supply) (hhost : e.host.Obliges) (hw : Settled e w)
    (hrunning : w.cancelled = false) {d : Definition} {ns : List Node} (hd : d.IsBracketed ns)
    (hsteps : ns.length ≤ e.config.engine.maxSteps) (caller : Caller) (calls : Nat) (region : Region) :
    ∃ f' w', (Standing.start calls d region w.hierarchy.active w).rest e caller =
        (.ok ⟨f', ns.length, false⟩, w') ∧
      f'.thread = w.hierarchy.active ∧ f'.sessions = [] ∧
      CancelsOut e caller (.start calls d region w.hierarchy.active w) ns w'.hierarchy := by
  let p : Standing σ := .start calls d region w.hierarchy.active w
  obtain ⟨t, ht⟩ := hw.openPath.active_mem
  have hstart : p.Reaches e caller t [] ns p :=
    ⟨.refl, rfl, rfl, rfl, rfl, hd.line, .start hw hrunning region t.depth⟩
  have hreached : ∀ {done node todo}, ns = done ++ node :: todo →
      ∃ q, p.Reaches e caller t done (node :: todo) q :=
    fun hns => exists_reached hinj hhost ht hstart hd.plain hd.balanced hsteps hns
  have hbound : ∀ {done node todo}, ns = done ++ node :: todo →
      done.length < e.config.engine.maxSteps ∧ node.IsPlain := by
    intro done node todo hns
    have hlength := congrArg List.length hns
    rw [List.length_append, List.length_cons] at hlength
    exact ⟨by omega, hd.plain node (hns ▸ List.mem_append_right _ List.mem_cons_self)⟩
  rcases List.eq_nil_or_concat' ns with rfl | ⟨done, last, hns⟩
  · cases hd.line
  · obtain ⟨q, hq⟩ := hreached hns
    obtain ⟨hlt, hplain⟩ := hbound hns
    obtain ⟨f', w', _, hx, hmid, _⟩ := hq.outcome hinj hhost ht hplain (hns ▸ hd.balanced)
    obtain ⟨_, hbranches, hnext⟩ := hq.line
    have hgoal : last.goal? (.proceed, f') = none := (Node.goal?_of_branches_nil hbranches f').trans hnext
    rw [← hns, nesting_eq_zero hd.balanced] at hmid
    obtain ⟨hthread, hsessions, hrestored, hcompleted⟩ := hmid.closed hw.openPath
    obtain ⟨w₁, hend, hsame⟩ : ∃ w₁, p.rest e caller = (.ok ⟨f', ns.length, false⟩, w₁) ∧
        w₁.hierarchy = w'.hierarchy := by
      rw [← hq.rest, rest_of_dispatches (hq.dispatches hhost hlt), hx]
      simp only [hgoal, hq.made, hns, List.length_append, List.length_singleton]
      exact ⟨_, rfl, rfl⟩
    refine ⟨f', w₁, hend, hthread, hsessions, hsame ▸ ⟨hrestored.active, ?_, hcompleted, ?_⟩⟩
    · intro id t hg
      obtain ⟨t', hg', hstatus, _⟩ := hrestored.kept id t hg
      exact ⟨t', hg', hstatus⟩
    · intro t' ht' done' node todo hns'
      cases ht.symm.trans ht'
      obtain ⟨q', hq'⟩ := hreached hns'
      obtain ⟨hlt', hplain'⟩ := hbound hns'
      obtain ⟨g, w₁, ids, hy, _, hadds, hlength⟩ := hq'.outcome hinj hhost ht hplain' (hns' ▸ hd.balanced)
      refine ⟨q', ids, hq'.visits, hq'.calls, hq'.made, hq'.dispatches hhost hlt', by rw [hy]; exact hadds, ?_⟩
      -- an enter opens a bracket, so the room counts from the first thread below the start
      have hopens : node.bracket? = some .U → 0 < nesting (done' ++ [node]) := by
        intro hbracket
        have hnests := nests_nesting (hns' ▸ hd.balanced)
        rw [Node.Nests, hbracket] at hnests
        omega
      have hroom : (node.bracket? = some .U ∧ nesting (done' ++ [node]) ≤ w.hierarchy.limits.maxDepth - t.depth) ↔
          node.bracket? = some .U ∧ t.depth + nesting (done' ++ [node]) ≤ w.hierarchy.limits.maxDepth :=
        and_congr_right fun hbracket => by
          have hpos := hopens hbracket
          omega
      rw [hlength]
      exact if_congr hroom rfl rfl

namespace Engine

variable {level : Level σ} {c : Call} {done : Step × Frame}

/-- A call that succeeds is what its node does. -/
theorem invoke_of_ok (hcall : e.call caller node c level f w = (.ok done, w')) :
    e.invoke caller node c level f w = (.ok done, w') := by
  rw [invoke]
  cases c.onFailure with
  | none => exact hcall
  | some target =>
    have hattempt : (e.call caller node c level f).attempt w = (.ok (.ok done), w') := by rw [Exec.attempt, hcall]
    exact Exec.bind_eq_ok.2 ⟨.ok done, w', hattempt, rfl⟩

/-- A walk that is called inline and leaves no session open gives its caller the thread in which it ends. -/
theorem invoke_inline_ok {d : Definition} {region : Region} {descend : Definition → Frame → Exec σ WalkEnd}
    {fd : Frame} {steps : Nat} (hmode : c.mode = .inline) (hkey : ∀ k, c.outputKey = some k → isReserved k = false)
    (hprepare : e.prepare c level f = .ok (d, region, descend))
    (hwalk : descend d (.start region f.thread) w = (.ok ⟨fd, steps, false⟩, w')) (hsessions : fd.sessions = []) :
    ∃ f', e.invoke caller node c level f w = (.ok (.proceed, f'), w') ∧ f'.thread = fd.thread ∧
      f'.sessions = f.sessions := by
  obtain ⟨f', habsorb, hthread, hkept⟩ := absorb_ok hkey true ⟨fd, steps, false⟩ f
  have hinline : e.callInline caller d region descend f w = (.ok ⟨fd, steps, false⟩, w') := by
    rw [callInline_eq, Exec.bind_run]
    simp only [Exec.attempt, hwalk]
    rfl
  refine ⟨f', invoke_of_ok ?_, hthread, by rw [hkept, hsessions]; rfl⟩
  rw [call_inline hprepare hmode]
  exact Exec.bind_eq_ok.2 ⟨_, w', hinline, by rw [habsorb]; rfl⟩

/-- Balanced brackets cancel out, wherever the limit of depth cuts in. If the host obliges, a run of a line of
plain nodes in balanced brackets completes, and so does every inline call of it from any node of any run: the same
thread is active as before, the walk acts in it with the same sessions, and nothing is left of the brackets but
completed threads, one for each enter that there was room for. -/
theorem cancelsOut_of_run (hinj : Function.Injective e.supply) (hhost : e.host.Obliges) (hw : Settled e w)
    {d : Definition} {ns : List Node} (hd : d.IsBracketed ns) (hsteps : ns.length ≤ e.config.engine.maxSteps)
    (caller : Caller) (name : String) (args : Dict Json) :
    (w.cancelled = false → ∀ region, e.bindArguments name args = .ok (d, region) →
      ∃ o w', e.run caller name args w = (.ok o, w') ∧ o.status = .completed ∧ o.steps = ns.length ∧
        o.frame.thread = w.hierarchy.active ∧ o.frame.sessions = [] ∧
        CancelsOut e caller (.start e.config.engine.maxCallDepth d region w.hierarchy.active
          (w.begun caller.agent.id d)) ns w'.hierarchy) ∧
    ∀ p, e.Visited caller name args w p → ∀ node, p.Dispatches e node →
      ∀ c, node.kind = .invoke c → c.mode = .inline →
      ∀ region descend, e.prepare c (e.level caller p.calls) p.frame = .ok (d, region, descend) →
        ∃ calls f' w', p.calls = calls + 1 ∧ p.outcome e caller node = (.ok (.proceed, f'), w') ∧
          f'.thread = p.frame.thread ∧ f'.sessions = p.frame.sessions ∧
          CancelsOut e caller (.start calls d region p.frame.thread (p.announced caller node)) ns
            w'.hierarchy := by
  refine ⟨?_, ?_⟩
  · intro hrunning region hbind
    have hbegun : Settled e (w.begun caller.agent.id d) := ⟨hw.openPath, hw.fresh⟩
    obtain ⟨f', w', hrest, hthread, hsessions, hcancels⟩ := Standing.start_cancelsOut hinj hhost hbegun hrunning hd
      hsteps caller e.config.engine.maxCallDepth region
    have hstart : e.start caller name args w.hierarchy.active w = (.ok ⟨f', ns.length, false⟩, w') :=
      (start_eq_rest hbind w.hierarchy.active w).trans hrest
    rw [run_eq, hstart]
    exact ⟨_, _, rfl, rfl, rfl, hthread, hsessions, hcancels⟩
  · intro p hv node hdisp c hkind hmode region descend hprepare
    have hu := upright_of_run hinj hw hv
    have hannounced : Settled e (p.announced caller node) :=
      World.settled_announced hu.settled caller.agent.id p.playbook node p.made
    have hthread : p.frame.thread = (p.announced caller node).hierarchy.active := hu.stands.thread
    obtain ⟨calls, hcalls, hdescend⟩ := descend_level (prepare_ok hprepare).2.1
    have hrunning : p.world.cancelled = false := World.cancelled_of_not_stops hdisp.running
    obtain ⟨f', w', hrest, hended, hsessions, hcancels⟩ :=
      Standing.start_cancelsOut hinj hhost hannounced hrunning hd hsteps caller calls region
    rw [← hthread] at hrest hended hcancels
    have hkey : ∀ k, c.outputKey = some k → isReserved k = false := by
      intro k hk
      refine (Definition.node_sound hdisp.node_eq).writes k ?_
      rw [Node.writes, hkind]
      exact List.mem_append_left _ (Option.mem_toList.2 hk)
    have hwalk : descend d (.start region p.frame.thread) (p.announced caller node) =
        (.ok ⟨f', ns.length, false⟩, w') := by
      rw [hdescend, Standing.walk_eq_rest]
      exact hrest
    obtain ⟨g, hinvoke, hg, hgsessions⟩ := invoke_inline_ok hmode hkey hprepare hwalk hsessions
    refine ⟨calls, g, w', hcalls, ?_, hg.trans hended, hgsessions, hcancels⟩
    simp only [Standing.outcome, dispatch, hkind]
    exact hinvoke

end Engine

/-! ## A cellar with one floor -/

namespace Tour

/-- Goes down, says something, tries to go deeper, and comes up again. -/
def stairs : List Node :=
  [⟨"down", .enterSession ⟨none, none⟩, some "say", []⟩, ⟨"say", .emit "mind the step", some "deeper", []⟩,
    ⟨"deeper", .enterSession ⟨none, none⟩, some "rest", []⟩, ⟨"rest", .pass, some "back", []⟩,
    ⟨"back", .leaveSession false, some "up", []⟩, ⟨"up", .leaveSession false, none, []⟩]

def cellar : Definition where
  graph := ⟨"cellar", none, "down", [], stairs⟩
  sound := ⟨Schema.truthValues, by decide⟩

/-- Shows the cellar in the session in which it is. -/
def tasting : Node :=
  ⟨"taste", .invoke ⟨"cellar", .empty, .inline, false, none, none, none, false⟩, none, []⟩

def winery : Definition where
  graph := ⟨"winery", none, "taste", [], [tasting]⟩
  sound := ⟨Schema.truthValues, by decide⟩

def vineyard : Engine Unit :=
  { engine with playbooks := (Registry.ofDefinitions [cellar, winery]).toOption.getD .empty }

/-- The primary session, in which one session may be nested and no more. -/
def floor : Numbered := .start unary "agent" 100 { Limits.default with maxDepth := 1 } default

def upstairs : World Unit := .start () floor.hierarchy floor.drawn false

theorem upstairs_settled : Settled vineyard upstairs :=
  .of_reachable unary_injective ⟨"agent", 100, default, [], rfl⟩ () false

theorem host_obliges : vineyard.host.Obliges where
  append := fun _ _ => ⟨rfl, rfl⟩
  deliver := fun _ _ _ => ⟨rfl, rfl⟩
  interrupts := fun _ _ => rfl

theorem stairs_bracketed : cellar.IsBracketed stairs where
  line := ⟨⟨_, rfl, rfl⟩, rfl, ⟨_, rfl, rfl⟩, rfl, ⟨_, rfl, rfl⟩, rfl, ⟨_, rfl, rfl⟩, rfl, ⟨_, rfl, rfl⟩, rfl,
    ⟨_, rfl, rfl⟩, rfl, rfl⟩
  plain := by
    have hsaid : Template.references "mind the step" = [] := by decide
    simp [stairs, Node.IsPlain, hsaid]
  balanced := ⟨(0 : DyckWord).nest.nest, rfl⟩

end Tour

/-- On the stairs of the cellar one floor is there and the other one is not, and everybody comes up again, whether
the cellar is visited by itself or shown to the guests of the winery. -/
theorem Tour.cellar_cancelsOut :
    (∃ o w', Tour.vineyard.run Outing.traveller "cellar" .empty Tour.upstairs = (.ok o, w') ∧
      o.status = .completed ∧ o.frame.sessions = [] ∧
      w'.hierarchy.active = Tour.upstairs.hierarchy.active) ∧
    ∃ f' w', (Standing.start Tour.vineyard.config.engine.maxCallDepth Tour.winery .empty
        Tour.upstairs.hierarchy.active (Tour.upstairs.begun "agent" Tour.winery)).outcome Tour.vineyard
          Outing.traveller Tour.tasting = (.ok (.proceed, f'), w') ∧
      f'.sessions = [] ∧ w'.hierarchy.active = Tour.upstairs.hierarchy.active := by
  have hall := Engine.cancelsOut_of_run unary_injective Tour.host_obliges Tour.upstairs_settled
    Tour.stairs_bracketed (by decide) Outing.traveller
  refine ⟨?_, ?_⟩
  · obtain ⟨o, w', hrun, hstatus, _, _, hsessions, hcancels⟩ := (hall "cellar" .empty).1 rfl .empty rfl
    exact ⟨o, w', hrun, hstatus, hsessions, hcancels.active⟩
  · obtain ⟨_, f', w', _, hx, _, hsessions, hcancels⟩ := (hall "winery" .empty).2 _
      ⟨Tour.winery, .empty, rfl, .refl⟩ Tour.tasting ⟨rfl, by decide, rfl⟩ _ rfl rfl _ _ rfl
    exact ⟨f', w', hx, hsessions, hcancels.active⟩

example : ((Tour.vineyard.run Outing.traveller "cellar" .empty Tour.upstairs).2.hierarchy.threads.values.map
    fun t => (t.depth, t.status)) = [(0, .active), (1, .completed)] := by decide +kernel

end Playbook
