import Playbook.Proofs.Run.Cancellation
import Playbook.Sessions

/-! # Emissions and where they show

A node that says something appends it to the memory, records it in its thread, delivers it to the user, and
tells the stream and the observers of it. Each step may fail, in walks that fail and are recovered, and what
these have said stays said. So all that shows of the emissions of a run is told by one list: the entries that
such nodes have appended to the memory, each with the result of its delivery.

Main statements: `Deed.shows_nothing` says that nothing else of a run shows in these places,
`Engine.emit_emits` what a single emission shows, and `Station.emissions_of_run` that all places agree in every
run.
-/

namespace Playbook

open Hierarchy

variable {σ : Type} {e : Engine σ} {caller : Caller} {agent : String} {w w' : World σ}

/-! ## Where emissions show -/

/-- The messages that a thread holds; none if there is no such thread. -/
def Hierarchy.messages (h : Hierarchy) (id : ThreadId) : List Message := (h.get? id).elim [] Thread.messages

/-- The content of which this tells that it was emitted. -/
def Happening.emitted? : Happening → Option String
  | .emitted content => some content
  | _ => none

/-- What has reached the user, with the agent who has said it. -/
def World.deliveries (w : World σ) : List (String × String) := w.interactions.filterMap Interaction.delivery?

/-- What the observers were told to be emitted, with the agent who has said it. -/
def World.emitted (w : World σ) : List (String × String) :=
  w.events.filterMap fun ev => ev.what.emitted?.map fun content => (ev.agent, content)

/-- An entry that a node has appended to the memory to say it, and how its delivery has ended. -/
structure Emission where
  node : String
  entry : MemoryEntry
  delivery : Except Error Unit

namespace Emission

/-- The user has got it. -/
def reached (em : Emission) : Bool := em.delivery.toBool

def fragment (em : Emission) : Fragment := .emission em.node em.entry.content

def message (em : Emission) : Message := ⟨.assistant, em.entry.content⟩

/-- The emission of a node that has made these calls. -/
def ofCalls? (node : String) : List Interaction → Option Emission
  | [.appended entry (.ok ()), .delivered _ _ result] => some ⟨node, entry, result⟩
  | _ => none

end Emission

/-- Between the two worlds these emissions show, everywhere in the same order, and nothing else: those that have
reached the user among the deliveries, the events and the fragments, and all of them in their threads. -/
structure Shows (agent : String) (ems : List Emission) (w w' : World σ) : Prop where
  deliveries : w'.deliveries =
    w.deliveries ++ (ems.filter Emission.reached).map fun em => (agent, em.entry.content)
  emitted : w'.emitted = w.emitted ++ (ems.filter Emission.reached).map fun em => (agent, em.entry.content)
  fragments : w'.fragments = w.fragments ++ (ems.filter Emission.reached).map Emission.fragment
  messages : ∀ id, w'.hierarchy.messages id =
    w.hierarchy.messages id ++ (ems.filter fun em => em.entry.thread == some id).map Emission.message

namespace Shows

/-- Nothing shows. -/
theorem nothing (hd : w'.deliveries = w.deliveries) (he : w'.emitted = w.emitted)
    (hf : w'.fragments = w.fragments) (hm : ∀ id, w'.hierarchy.messages id = w.hierarchy.messages id) :
    Shows agent [] w w' where
  deliveries := hd.trans (List.append_nil _).symm
  emitted := he.trans (List.append_nil _).symm
  fragments := hf.trans (List.append_nil _).symm
  messages := fun id => (hm id).trans (List.append_nil _).symm

theorem refl (agent : String) (w : World σ) : Shows agent [] w w := .nothing rfl rfl rfl fun _ => rfl

theorem append {ems ems' : List Emission} {w'' : World σ} (h : Shows agent ems w w')
    (h' : Shows agent ems' w' w'') : Shows agent (ems ++ ems') w w'' where
  deliveries := by rw [h'.deliveries, h.deliveries, List.append_assoc, List.filter_append, List.map_append]
  emitted := by rw [h'.emitted, h.emitted, List.append_assoc, List.filter_append, List.map_append]
  fragments := by rw [h'.fragments, h.fragments, List.append_assoc, List.filter_append, List.map_append]
  messages := fun id => by
    rw [h'.messages, h.messages, List.append_assoc, List.filter_append, List.map_append]

end Shows

/-! ## Deeds that show nothing -/

/-- The scope in which nothing is said. -/
def Scope.mute : Scope := ⟨fun _ _ => False, fun _ => True⟩

/-- Events that tell of no emission. -/
theorem World.emitted_told {whats : List Happening} (h : ∀ what ∈ whats, what.emitted? = none)
    (w : World σ) (agent : String) : (w.told agent whats).emitted = w.emitted := by
  have hnil : (whats.map fun what => (⟨agent, what⟩ : Event)).filterMap
      (fun ev => ev.what.emitted?.map fun content => (ev.agent, content)) = [] := by
    rw [List.filterMap_eq_nil_iff]
    intro ev hev
    rcases List.mem_map.1 hev with ⟨what, hmem, rfl⟩
    rw [h what hmem]
    rfl
  rw [emitted, told, List.filterMap_append, hnil, List.append_nil]
  rfl

theorem World.deliveries_consulted (w : World σ) (host : σ) (cancels : Bool) (i : Interaction) :
    (w.consulted host cancels i).deliveries = w.deliveries ++ i.delivery?.toList := by
  rw [deliveries, consulted, List.filterMap_append]
  cases hi : i.delivery? <;> simp [hi, deliveries]

/-- A change of the threads that keeps their messages. -/
theorem Hierarchy.Maps.messages_eq {h h' : Hierarchy} {active : ThreadId} {g : ThreadId → Thread → Thread}
    (hm : Maps h h' active g) (hg : ∀ id t, (g id t).messages = t.messages) (id : ThreadId) :
    h'.messages id = h.messages id := by
  rw [Hierarchy.messages, Hierarchy.messages, hm.get?]
  cases h.get? id with
  | none => rfl
  | some t => exact hg id t

/-- A session that is entered under a new name is empty, and its anchor is no message. -/
theorem Hierarchy.Enters.messages_eq {h h' : Hierarchy} {id : ThreadId} {p : Thread} {ratio : Double}
    {label : Option String} {now : Time} (hfresh : h.get? id = none)
    (he : Enters h h' id p (Thread.nested id p ratio label now)) (x : ThreadId) :
    h'.messages x = h.messages x := by
  rw [Hierarchy.messages, Hierarchy.messages]
  by_cases hx : x = id
  · rw [hx, he.get?_new, hfresh]
    rfl
  · rw [he.get?_old hx]
    cases h.get? x with
    | none => rfl
    | some t =>
      rw [Option.map_some]
      split
      · exact (Thread.messages_push t (.anchor id)).trans (List.append_nil _)
      · rfl

/-- Where nothing may be said no deed shows anything. -/
theorem Deed.shows_nothing (hs : Settled e w) (hd : Deed e agent .mute w w') : Shows agent [] w w' := by
  -- what a session gains when it is opened or closed is no message
  cases hd with
  | consulted host cancels i hu hi =>
    refine .nothing ?_ rfl rfl fun _ => rfl
    rw [World.deliveries_consulted, hi]
    exact List.append_nil _
  | polled => exact .nothing rfl rfl rfl fun _ => rfl
  | answered host cancels request g =>
    refine .nothing ?_ ?_ rfl fun _ => rfl
    · show (w.consulted host cancels (.generated request (.ok g))).deliveries = w.deliveries
      rw [World.deliveries_consulted]
      exact List.append_nil _
    · exact World.emitted_told (by simp [Happening.emitted?]) (w.consulted host cancels _) agent
  | noted what hn =>
    refine .nothing rfl (World.emitted_told ?_ w agent) rfl fun _ => rfl
    intro x hmem
    rw [List.mem_singleton.1 hmem]
    cases what with
    | emitted => cases hn
    | _ => rfl
  | dispatched t hS =>
    exact .nothing rfl (World.emitted_told (by simp [Happening.emitted?]) w agent) rfl fun _ => rfl
  | recorded host cancels thread content h hS hr => exact hS.elim
  | delivered host cancels node content hS =>
    rcases hS with ⟨_, _, hnever⟩
    exact hnever.elim
  | entered ratio label h t he ht =>
    rcases enter_ok hs.openPath.toIsTree hs.openPath.active_ne_none he with ⟨p, hent⟩
    have hfresh := hs.fresh w.drawn (Nat.le_refl _)
    exact .nothing rfl (World.emitted_told (by simp [Happening.emitted?]) w agent) rfl
      fun id => hent.messages_eq hfresh id
  | left id chronicle h hl =>
    rcases leave_maps hl with ⟨_, _, _, _, _, hm⟩
    refine .nothing rfl (World.emitted_told (by simp [Happening.emitted?]) w agent) rfl ?_
    intro x
    refine hm.messages_eq ?_ x
    intro y t
    split <;> rfl
  | aborted id h ids ha =>
    rcases abort_ok ha with ⟨t, p, hg, hp⟩
    rcases abort_eq hg hp e.now with ⟨h', hok, hm⟩
    rw [ha] at hok
    cases hok
    refine .nothing rfl (World.emitted_told ?_ w agent) rfl ?_
    · intro what hmem
      rcases List.mem_map.1 hmem with ⟨x, _, rfl⟩
      rfl
    · intro x
      refine hm.messages_eq ?_ x
      intro y u
      split <;> rfl

theorem Deeds.shows_nothing (hinj : Function.Injective e.supply) (hs : Settled e w)
    (hd : Deeds e agent .mute w w') : Settled e w' ∧ Shows agent [] w w' := by
  refine ⟨(hd.settled hinj hs).1, ?_⟩
  induction hd with
  | refl => exact .refl agent w
  | tail hfirst hlast ih => exact ih.append (hlast.shows_nothing (Deeds.settled hinj hs hfirst).1)

/-! ## One emission -/

/-- A message that is recorded in a thread shows in this thread. -/
theorem Hierarchy.messages_recordIn {h h' : Hierarchy} {id : ThreadId} {role : Role} {content : String}
    {tags : List String} (hr : h.recordIn id role content tags = .ok h') (x : ThreadId) :
    h'.messages x = h.messages x ++ if id = x then [⟨role, content⟩] else [] := by
  have hget := (recordIn_maps hr).get? x
  rw [Hierarchy.messages, Hierarchy.messages, hget]
  -- only the thread that the message is recorded in gains it
  by_cases hx : id = x
  · subst hx
    cases hg : h.get? id with
    | none =>
      rw [recordIn, require_eq_error hg] at hr
      cases hr
    | some t =>
      rw [Option.map_some, if_pos rfl, if_pos rfl]
      exact Thread.messages_push t _
  · rw [if_neg hx, List.append_nil]
    cases h.get? x with
    | none => rfl
    | some t =>
      rw [Option.map_some, if_neg (Ne.symm hx)]

/-- What was said in a thread and remembered shows there, and with its delivery everywhere else. -/
theorem Shows.said {h : Hierarchy} {thread : ThreadId} {content : String}
    (hr : w.hierarchy.recordIn thread .assistant content [conversationTag] = .ok h) (node : String)
    (time : Time) {delivery : Except Error Unit}
    (hd : w'.deliveries = w.deliveries ++ if delivery.toBool then [(agent, content)] else [])
    (he : w'.emitted = w.emitted ++ if delivery.toBool then [(agent, content)] else [])
    (hf : w'.fragments = w.fragments ++ if delivery.toBool then [.emission node content] else [])
    (hh : w'.hierarchy = h) :
    Shows agent [⟨node, .said agent content thread time, delivery⟩] w w' := by
  have hreached : Emission.reached ⟨node, .said agent content thread time, delivery⟩ = delivery.toBool :=
    rfl
  constructor
  · rw [hd, List.filter_singleton, hreached]
    cases delivery.toBool <;> rfl
  · rw [he, List.filter_singleton, hreached]
    cases delivery.toBool <;> rfl
  · rw [hf, List.filter_singleton, hreached]
    cases delivery.toBool <;> rfl
  · intro id
    rw [hh, messages_recordIn hr, List.filter_singleton]
    have hthread : (MemoryEntry.said agent content thread time).thread = some thread := rfl
    -- the message stands in its thread, whether it was delivered or not
    by_cases hid : thread = id
    · subst hid
      rw [if_pos rfl, hthread, beq_self_eq_true]
      rfl
    · have hne : (some thread == some id) = false := by simpa using hid
      rw [if_neg hid, hthread, hne]
      rfl

namespace Engine

variable {node : Node} {f : Frame}

/-- The calls of a node that says something, and the emission that they make: each entry that it appends to the
memory makes one, and what it makes shows. -/
structure Emits (e : Engine σ) (caller : Caller) (node : Node) (thread : ThreadId) (w w' : World σ)
    (calls : List Interaction) : Prop where
  interactions : w'.interactions = w.interactions ++ calls
  stored : calls.filterMap Interaction.stored? =
    (Emission.ofCalls? node.id calls).toList.map Emission.entry
  entry : ∀ em ∈ Emission.ofCalls? node.id calls,
    em.entry = .said caller.agent.id em.entry.content thread e.now
  shows : Shows caller.agent.id (Emission.ofCalls? node.id calls).toList w w'

/-- A node that makes no emission. -/
theorem Emits.of_none {thread : ThreadId} {calls : List Interaction}
    (hinteractions : w'.interactions = w.interactions ++ calls)
    (hstored : calls.filterMap Interaction.stored? = []) (hnone : Emission.ofCalls? node.id calls = none)
    (hshows : Shows caller.agent.id [] w w') : Emits e caller node thread w w' calls where
  interactions := hinteractions
  stored := by rw [hnone, hstored]; rfl
  entry := by
    intro em hem
    rw [hnone] at hem
    cases hem
  shows := by
    rw [hnone]
    exact hshows

theorem emit_emits (e : Engine σ) (caller : Caller) (node : Node)
    (hthread : w.hierarchy.get? f.thread ≠ none) (source : String) :
    ∃ calls, Emits e caller node f.thread w (e.emit caller node source f w).2 calls := by
  unfold emit
  cases Template.render f.region source with
  | error cause => exact ⟨[], .of_none (List.append_nil _).symm rfl rfl (.refl _ w)⟩
  | ok content =>
    obtain ⟨h, hrec⟩ := exists_recordIn hthread .assistant content [conversationTag]
    show ∃ calls, Emits e caller node f.thread w ((e.remember caller Role.assistant.name content
      [conversationTag] f >>= fun _ => _) w).2 calls
    rw [Exec.bind_run, remember, Exec.consult_run]
    rcases e.host.append w.host _ with ⟨cause | _, cancels, host⟩
    · -- what is not remembered goes no further
      refine ⟨_, .of_none rfl rfl rfl (.nothing ?_ rfl rfl fun _ => rfl)⟩
      exact (World.deliveries_consulted ..).trans (List.append_nil _)
    · dsimp only
      rw [Exec.bind_run, Exec.onHierarchy]
      simp only [World.consulted, hrec]
      rw [Exec.bind_run, Exec.consult_run]
      rcases e.host.deliver host caller.agent.id content with ⟨cause | _, cancels', host'⟩
      · refine ⟨[.appended (.said caller.agent.id content f.thread e.now) (.ok ()),
          .delivered caller.agent.id content (.error cause)], List.append_assoc .., rfl, ?_, ?_⟩
        · intro em hem
          cases hem
          rfl
        · refine .said hrec node.id e.now ?_ (List.append_nil _).symm (List.append_nil _).symm rfl
          show ((w.interactions ++ [_]) ++ [_]).filterMap Interaction.delivery? = _
          rw [List.filterMap_append, List.filterMap_append, List.append_assoc]
          rfl
      · refine ⟨[.appended (.said caller.agent.id content f.thread e.now) (.ok ()),
          .delivered caller.agent.id content (.ok ())], List.append_assoc .., rfl, ?_, ?_⟩
        · intro em hem
          cases hem
          rfl
        · refine .said hrec node.id e.now ?_ ?_ rfl rfl
          · show ((w.interactions ++ [_]) ++ [_]).filterMap Interaction.delivery? = _
            rw [List.filterMap_append, List.filterMap_append, List.append_assoc]
            rfl
          · show (w.events ++ [(⟨caller.agent.id, .emitted content⟩ : Event)]).filterMap _ = _
            rw [List.filterMap_append]
            rfl

end Engine

/-! ## All nodes of a run -/

namespace Dispatch

/-- The entries that a node which says something has appended to the memory. -/
def entries (e : Engine σ) (caller : Caller) (d : Dispatch σ) : List MemoryEntry :=
  match d.node.kind with
  | .emit _ => (d.calls e caller).filterMap Interaction.stored?
  | _ => []

/-- The emission of the node, if it makes one. -/
def emission? (e : Engine σ) (caller : Caller) (d : Dispatch σ) : Option Emission :=
  match d.node.kind with
  | .emit _ => Emission.ofCalls? d.node.id (d.calls e caller)
  | _ => none

theorem emission?_of_kind_ne (e : Engine σ) (caller : Caller) {d : Dispatch σ}
    (hkind : ∀ source, d.node.kind ≠ .emit source) :
    d.emission? e caller = none ∧ d.entries e caller = [] := by
  rw [emission?, entries]
  cases hk : d.node.kind with
  | emit source => exact absurd hk (hkind source)
  | _ => exact ⟨rfl, rfl⟩

end Dispatch

/-- What shows between the two worlds are the emissions of these nodes. -/
def ShowsAll (e : Engine σ) (caller : Caller) (l : List (Dispatch σ)) (w w' : World σ) : Prop :=
  Settled e w →
    Settled e w' ∧ Shows caller.agent.id (l.filterMap (Dispatch.emission? e caller)) w w'

section

variable (hinj : Function.Injective e.supply)
include hinj

theorem ShowsAll.of_does {α : Type} {x : Exec σ α} (h : ∀ w, Does e caller.agent.id .mute x w) (w : World σ) :
    Along (ShowsAll e caller []) x w :=
  fun hs => (h w).shows_nothing hinj hs

theorem collects_emissions (caller : Caller) : Collects e caller (ShowsAll e caller) := by
  have happend : ∀ {l l' : List (Dispatch σ)} {a b c : World σ}, ShowsAll e caller l a b →
      ShowsAll e caller l' b c → ShowsAll e caller (l ++ l') a c := by
    intro l l' a b c hab hbc hs
    obtain ⟨hs', hshows⟩ := hab hs
    obtain ⟨hs'', hshows'⟩ := hbc hs'
    rw [List.filterMap_append]
    exact ⟨hs'', hshows.append hshows'⟩
  have htold : ∀ what (w : World σ), what.emitted? = none →
      ShowsAll e caller [] w (w.told caller.agent.id [what]) := by
    intro what w hwhat hs
    refine ⟨⟨hs.openPath, hs.fresh⟩, .nothing rfl (World.emitted_told ?_ w _) rfl fun _ => rfl⟩
    intro x hmem
    rw [List.mem_singleton.1 hmem, hwhat]
  -- none of these steps emits, and they record nothing
  exact {
    carried := {
      refl := fun w hs => ⟨hs, .refl _ w⟩
      trans := happend
      polled := fun w hs => ⟨⟨hs.openPath, hs.fresh⟩, .nothing rfl rfl rfl fun _ => rfl⟩
      opened := fun ratio label => .of_does hinj fun _ => Engine.does_open? ratio label
      rejected := fun _ cause _ => .of_does hinj fun _ => Engine.does_reject cause
      closed := fun id summarize _ => .of_does hinj fun _ => Engine.does_close id summarize
      aborted := fun id => .of_does hinj fun _ => Engine.does_abort id
      abortedAbove := fun _ =>
        .of_does hinj fun _ => Does.aborting fun _ _ ha => Hierarchy.abortAbove_cases ha }
    append := happend
    begun := fun d w => htold (.runStarted d.name) w rfl
    ended := fun what w hterm => htold what w (by cases what <;> first | rfl | cases hterm)
    abortedRun := fun _ =>
      .of_does hinj fun _ => Does.aborting fun _ _ ha => Hierarchy.abortRun_cases ha }

end

namespace Dispatch

variable {d : Dispatch σ}

/-- Announcing a node shows nothing. -/
theorem announced_shows (e : Engine σ) (caller : Caller) (hs : Settled e d.standing.world) :
    Settled e (d.announced caller) ∧ Shows caller.agent.id [] d.standing.world (d.announced caller) :=
  ⟨World.settled_announced hs _ _ _ _, Deed.shows_nothing hs Standing.announced_deed⟩

/-- A node that says something makes an emission with each entry that it appends. -/
theorem emits_of_kind {source : String} (hkind : d.node.kind = .emit source)
    (hthread : d.standing.world.hierarchy.get? d.standing.frame.thread ≠ none) :
    Engine.Emits e caller d.node d.standing.frame.thread (d.announced caller) (d.outcome e caller).2
      (d.calls e caller) := by
  obtain ⟨calls, hemits⟩ := Engine.emit_emits (w := d.announced caller) e caller d.node hthread
    source
  have hworld : (d.outcome e caller).2 =
      (e.emit caller d.node source d.standing.frame (d.announced caller)).2 := by
    show (e.dispatch caller (e.level caller d.standing.calls) d.node d.standing.frame
      (d.announced caller)).2 = _
    simp only [Engine.dispatch, hkind]
    exact Exec.bind_pure_world _ _ _
  rw [← hworld] at hemits
  -- what a dispatch asks is what the world has recorded since its start
  have hcalls : d.calls e caller = calls :=
    List.append_cancel_left ((d.interactions_outcome e caller).symm.trans hemits.interactions)
  rw [hcalls]
  exact hemits

/-- Every entry that such a node has appended makes an emission, in the active thread. -/
theorem entries_eq (caller : Caller) (hs : Settled e d.standing.world)
    (hthread : d.standing.frame.thread = d.standing.world.hierarchy.active) :
    d.entries e caller = (d.emission? e caller).toList.map Emission.entry ∧
      ∀ em ∈ d.emission? e caller, em.entry =
        .said caller.agent.id em.entry.content d.standing.world.hierarchy.active e.now := by
  by_cases hkind : ∃ source, d.node.kind = .emit source
  · rcases hkind with ⟨source, hkind⟩
    have hemits : Engine.Emits e caller _ _ _ _ _ :=
      emits_of_kind hkind (hthread ▸ hs.openPath.active_ne_none)
    rw [entries, emission?, hkind, ← hthread]
    exact ⟨hemits.stored, hemits.entry⟩
  · obtain ⟨hnone, hnil⟩ := emission?_of_kind_ne e caller fun source h => hkind ⟨source, h⟩
    rw [hnone, hnil]
    exact ⟨rfl, fun em hem => nomatch hem⟩

/-- A dispatched node shows its emission, if it makes one, and nothing else. -/
theorem counts_emissions (hinj : Function.Injective e.supply)
    (hthread : d.standing.frame.thread = d.standing.world.hierarchy.active) :
    d.Counts e caller (ShowsAll e caller) := by
  have hsingle : [d].filterMap (Dispatch.emission? e caller) = (d.emission? e caller).toList := by
    cases hd : d.emission? e caller <;> simp [hd]
  constructor
  · -- a node that calls nothing
    intro hleaf hs
    obtain ⟨hs', hannounced⟩ := announced_shows e caller hs
    rw [hsingle]
    by_cases hkind : ∃ source, d.node.kind = .emit source
    · rcases hkind with ⟨source, hkind⟩
      have hemits : Engine.Emits e caller _ _ _ _ _ :=
        emits_of_kind hkind (hthread ▸ hs.openPath.active_ne_none)
      have hdoes : Deeds e caller.agent.id .any (d.announced caller) (d.outcome e caller).2 :=
        Engine.does_dispatch_of_no_call (fun c hc => hleaf ⟨c, hc⟩) fun _ _ => trivial
      refine ⟨(hdoes.settled hinj hs').1, ?_⟩
      rw [emission?, hkind]
      exact hannounced.append hemits.shows
    · have hdoes : Deeds e caller.agent.id .mute (d.announced caller) (d.outcome e caller).2 :=
        Engine.does_dispatch_of_no_call (fun c hc => hleaf ⟨c, hc⟩) fun source hs => hkind ⟨source, hs⟩
      obtain ⟨hs'', hshows⟩ := hdoes.shows_nothing hinj hs'
      rw [(emission?_of_kind_ne e caller fun source h => hkind ⟨source, h⟩).1]
      exact ⟨hs'', hannounced.append hshows⟩
  · -- a call, of which only the announcement counts here
    rintro ⟨c, hc⟩ hs
    have hkind : ∀ source, d.node.kind ≠ .emit source := by
      intro source h
      rw [hc] at h
      cases h
    rw [hsingle, (emission?_of_kind_ne e caller hkind).1]
    exact announced_shows e caller hs
  · -- what is told behind a node
    intro w hs
    have hnotes : Scope.mute.notes (Standing.entry e caller d.standing d.node) := trivial
    exact ⟨World.settled_ticked hs _ _ _ _ _, (Standing.ticked_deed hnotes w).shows_nothing hs⟩

end Dispatch

/-! ## Runs -/

namespace Engine

variable {name : String} {args : Dict Json}

/-- The emissions of a run, in order. -/
def emissions (e : Engine σ) (caller : Caller) (name : String) (args : Dict Json) (w : World σ) :
    List Emission :=
  (e.dispatched caller name args w).filterMap (Dispatch.emission? e caller)

/-- What a run says shows, and nothing else. -/
theorem run_shows (hinj : Function.Injective e.supply) (caller : Caller) (hs : Settled e w)
    (name : String) (args : Dict Json) :
    Shows caller.agent.id (e.emissions caller name args w) w (e.run caller name args w).2 := by
  refine (run_collects (collects_emissions hinj caller) ?_ hs).2
  intro d hmem
  have hu := upright_of_run hinj hs (mem_dispatched_iff.1 hmem).1
  exact Dispatch.counts_emissions hinj hu.stands.thread

/-- Each entry that one of its nodes has appended to say something makes an emission, in the thread that was
active then. -/
theorem entries_of_run (hinj : Function.Injective e.supply) (caller : Caller) (hs : Settled e w)
    (name : String) (args : Dict Json) :
    (e.dispatched caller name args w).flatMap (Dispatch.entries e caller) =
        (e.emissions caller name args w).map Emission.entry ∧
      ∀ d ∈ e.dispatched caller name args w, ∀ em ∈ d.emission? e caller, em.entry =
        .said caller.agent.id em.entry.content d.standing.world.hierarchy.active e.now := by
  have heach : ∀ d ∈ e.dispatched caller name args w, _ := fun d hmem =>
    have hu := upright_of_run hinj hs (mem_dispatched_iff.1 hmem).1
    Dispatch.entries_eq caller hu.settled hu.stands.thread
  refine ⟨?_, fun d hmem => (heach d hmem).2⟩
  rw [emissions, List.map_filterMap, List.filterMap_eq_flatMap_toList]
  refine List.flatMap_congr ?_
  intro d hmem
  rw [(heach d hmem).1]
  cases d.emission? e caller <;> rfl

end Engine

/-- The stream of a run ends with a terminal fragment. -/
theorem Fragment.isTerminal_ending (r : Except Error Outcome) : (Fragment.ending r).isTerminal = true := by
  rcases r with cause | o
  · rfl
  · simp only [ending]
    cases o.status <;> rfl

namespace Station

/-- The nodes that a run for an agent dispatches; none if its hierarchy cannot be restored. -/
def dispatched (e : Engine σ) (s : Station σ) (caller : Caller) (name : String) (args : Dict Json)
    (cancelled : Bool) : List (Dispatch σ) :=
  match s.session e caller.agent.id with
  | .ok (s', h) => e.dispatched caller name args (.start s'.host h s'.drawn cancelled)
  | .error _ => []

/-- Their emissions, in order. -/
def emissions (e : Engine σ) (s : Station σ) (caller : Caller) (name : String) (args : Dict Json)
    (cancelled : Bool) : List Emission :=
  (s.dispatched e caller name args cancelled).filterMap (Dispatch.emission? e caller)

/-- Wherever emissions show they agree. The deliveries, the events and the fragments of a run are those of its
emissions that have reached the user, and one terminal fragment stands behind these. The messages that a
thread has got are those of all its emissions. The emissions are the entries that nodes have appended to
the memory to say them, in the thread that was active then, each with the result of its delivery. -/
theorem emissions_of_run (hinj : Function.Injective e.supply) (s : Station σ) (caller : Caller)
    (name : String) (args : Dict Json) (cancelled : Bool)
    (hs : ∀ s' h, s.session e caller.agent.id = .ok (s', h) →
      Settled e (.start s'.host h s'.drawn cancelled)) :
    (s.run e caller name args cancelled).2.interactions.filterMap Interaction.delivery? =
        ((s.emissions e caller name args cancelled).filter Emission.reached).map
          (fun em => (caller.agent.id, em.entry.content)) ∧
      (s.run e caller name args cancelled).2.events.filterMap
          (fun ev => ev.what.emitted?.map fun content => (ev.agent, content)) =
        ((s.emissions e caller name args cancelled).filter Emission.reached).map
          (fun em => (caller.agent.id, em.entry.content)) ∧
      (∃ last, (s.run e caller name args cancelled).2.stream =
          ((s.emissions e caller name args cancelled).filter Emission.reached).map Emission.fragment ++
            [last] ∧ last.isTerminal = true) ∧
      (∀ s' h, s.session e caller.agent.id = .ok (s', h) →
        ∃ h', (s.run e caller name args cancelled).1.sessions.live.get? caller.agent.id = some h' ∧
          ∀ id, h'.messages id = h.messages id ++ ((s.emissions e caller name args cancelled).filter
            fun em => em.entry.thread == some id).map Emission.message) ∧
      (s.dispatched e caller name args cancelled).flatMap (Dispatch.entries e caller) =
        (s.emissions e caller name args cancelled).map Emission.entry ∧
      ∀ d ∈ s.dispatched e caller name args cancelled,
        d.standing.world.interactions ++ d.calls e caller <+:
          (s.run e caller name args cancelled).2.interactions ∧
        ∀ em ∈ d.emission? e caller, em.entry =
          .said caller.agent.id em.entry.content d.standing.world.hierarchy.active e.now := by
  cases hsession : s.session e caller.agent.id with
  | error cause =>
    have hnone : s.dispatched e caller name args cancelled = [] := by rw [dispatched, hsession]
    rw [emissions, hnone, run_of_session_error hsession]
    exact ⟨rfl, rfl, ⟨_, rfl, rfl⟩, (fun _ _ hok => nomatch hok), rfl,
      fun d hmem => absurd hmem List.not_mem_nil⟩
  | ok found =>
    rcases found with ⟨s', h⟩
    have hw := hs s' h hsession
    have hlist : s.dispatched e caller name args cancelled =
        e.dispatched caller name args (.start s'.host h s'.drawn cancelled) := by
      rw [dispatched, hsession]
    have hshows := Engine.run_shows hinj caller hw name args
    obtain ⟨hentries, heach⟩ := Engine.entries_of_run hinj caller hw name args
    rcases hrun : e.run caller name args (.start s'.host h s'.drawn cancelled) with ⟨result, w⟩
    rw [hrun] at hshows
    let left : Station σ := ⟨s'.sessions.put caller.agent.id w.hierarchy, w.host, w.drawn⟩
    rcases hsave : left.save e w.hierarchy with ⟨saved, s''⟩
    rw [emissions, hlist, run_of_session hsession hrun hsave]
    refine ⟨hshows.deliveries, hshows.emitted, ⟨_, ?_, Fragment.isTerminal_ending (concluded result saved)⟩, ?_,
      hentries, ?_⟩
    · rw [hshows.fragments]
      rfl
    · intro _ h'' hok
      cases hok
      have hlive : s''.sessions.live = left.sessions.live := by
        rw [← live_save e left w.hierarchy, hsave]
      refine ⟨w.hierarchy, ?_, hshows.messages⟩
      rw [hlive]
      exact Dict.get?_insert_self ..
    · intro d hmem
      have hbehind := (Engine.interactions_of_dispatched hmem).2
      rw [hrun, d.interactions_outcome] at hbehind
      exact ⟨hbehind, heach d hmem⟩

end Station

/-! ## A tour with something to say -/

/-- Nobody has run anything yet, and nothing is archived. -/
def Tour.office : Station Unit := ⟨.new Tour.engine.config.threads none, (), 0⟩

/-- What is said at the inn shows everywhere, although it is said in a session of its own. -/
theorem Tour.emissions_of_tour :
    (∀ s' h, Tour.office.session Tour.engine "agent" = .ok (s', h) →
      Settled Tour.engine (.start s'.host h s'.drawn false)) ∧
    (Tour.office.run Tour.engine Outing.traveller "tour" .empty false).2.interactions.filterMap
        Interaction.delivery? =
      ((Tour.office.emissions Tour.engine Outing.traveller "tour" .empty false).filter
        Emission.reached).map (fun em => ("agent", em.entry.content)) ∧
    ∃ last, (Tour.office.run Tour.engine Outing.traveller "tour" .empty false).2.stream =
        ((Tour.office.emissions Tour.engine Outing.traveller "tour" .empty false).filter
          Emission.reached).map Emission.fragment ++ [last] ∧ last.isTerminal = true := by
  have hsettled : ∀ s' h, Tour.office.session Tour.engine "agent" = .ok (s', h) →
      Settled Tour.engine (.start s'.host h s'.drawn false) := by
    intro s' h hok
    cases hok
    exact .of_reachable unary_injective ⟨"agent", 100000, default, [], rfl⟩ () false
  obtain ⟨hdeliveries, _, hstream, _⟩ := Station.emissions_of_run unary_injective Tour.office
    Outing.traveller "tour" .empty false hsettled
  exact ⟨hsettled, hdeliveries, hstream⟩

example : (Tour.office.run Tour.engine Outing.traveller "tour" .empty false).2.stream.map
    Fragment.isTerminal = [false, true] := by decide +kernel

end Playbook
