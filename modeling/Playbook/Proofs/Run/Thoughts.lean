import Playbook.Proofs.Run.Sources

/-! # Private thoughts

A private thought is stored without the tag of the long-term memory, and only entries with this tag are read. So
the text of a thought can never be told from what a run does, from what it leaves behind but for the thought, or
from what is recalled later.

Main statements: `Engine.memory_of_run` says that a memory holds what it held before and what the dispatched
nodes have stored, and `Engine.thoughts_of_run` that runs whose private thoughts differ do the same and leave the
same behind but for these thoughts.
-/

namespace Playbook

open Exec (Coupled)

variable {τ : Type}

/-! ## Private thoughts -/

/-- The same entry, or a private thought with another text. -/
def MemoryEntry.SameButThought (m m' : MemoryEntry) : Prop :=
  m' = m ∨ m.tags = [internalTag] ∧ ∃ content, m' = { m with content }

/-- The same call, or another private thought was appended with the same result. -/
def Interaction.SameButThought (i i' : Interaction) : Prop :=
  i' = i ∨ ∃ entry entry' result, i = .appended entry result ∧ i' = .appended entry' result ∧
    entry.SameButThought entry'

/-- The same node, or another private thought. -/
def Node.SameButThought (n n' : Node) : Prop :=
  n' = n ∨ ∃ content content', n.kind = .reflect content ∧ n' = { n with kind := .reflect content' }

/-- The same playbooks, but for their private thoughts. -/
def Registry.SameButThoughts (r r' : Registry) : Prop :=
  ∀ name, Option.Rel
    (fun d d' => ∃ nodes, List.Forall₂ Node.SameButThought d.graph.nodes nodes ∧
      d'.graph = { d.graph with nodes })
    (r.get? name) (r'.get? name)

/-- Private thoughts are never recalled. -/
theorem Memory.recent_eq {m m' : Memory}
    (h : List.Forall₂ MemoryEntry.SameButThought m.entries m'.entries) (agent : String) (limit : Nat) :
    m'.recent agent limit = m.recent agent limit := by
  rw [recent, recent, ofAgent, ofAgent]
  congr 1
  generalize m.entries = l, m'.entries = l' at h
  induction h with
  | nil => rfl
  | @cons entry entry' entries entries' hentry _ ih =>
    rcases hentry with rfl | ⟨htags, content, rfl⟩
    · simp only [List.filter_cons]
      split
      · rw [List.flatMap_cons, List.flatMap_cons, ih]
      · exact ih
    · -- a thought is not tagged for the long term, so it is not recalled on either side
      have hcount : entry.tags.count longTermTag = 0 := by
        rw [htags]
        decide
      simp only [List.filter_cons]
      split
      · rw [List.flatMap_cons, List.flatMap_cons, ih, hcount]
        rfl
      · exact ih

/-- The text of a thought tells nothing of where the node leads. -/
theorem Node.SameButThought.shape {n n' : Node} (h : n.SameButThought n') : ∃ kind, n' = { n with kind } ∧
    kind.typeName = n.kind.typeName ∧ ∀ c, n.kind = .invoke c → kind = n.kind := by
  rcases h with rfl | ⟨content, content', hkind, rfl⟩
  · exact Node.shape_of_eq rfl
  · refine ⟨_, rfl, by rw [hkind]; rfl, fun c hc => ?_⟩
    rw [hkind] at hc
    cases hc

/-- Whether the memory takes an entry is not told by the text of the entry. -/
def Company.TakesAnyText (S : Company τ) : Prop :=
  ∀ s entry content, S.accept s { entry with content } = S.accept s entry

/-- Private thoughts may differ, in the playbooks, in the memory and in what is appended to it. The entries of the
memories are related so. -/
def Likeness.thoughts (τ : Type) (R : List MemoryEntry → List MemoryEntry → Prop) :
    Likeness (Remembering τ) :=
  .sameOutputs (fun s is s' is' => s'.rest = s.rest ∧ R s.memory.entries s'.memory.entries ∧
    List.Forall₂ Interaction.SameButThought is is') Node.SameButThought Node.SameButThought.shape

namespace Engine

variable {R : List MemoryEntry → List MemoryEntry → Prop}

/-- One more call that is the same in both runs. -/
theorem sameButThought_concat {is is' : List Interaction}
    (h : List.Forall₂ Interaction.SameButThought is is') (i : Interaction) :
    List.Forall₂ Interaction.SameButThought (is ++ [i]) (is' ++ [i]) :=
  List.rel_append h (.cons (.inl rfl) .nil)

theorem hides_aside {α : Type} (call : τ → Reply τ α) (note : Except Error α → Interaction) :
    (Likeness.thoughts τ R).Hides (Company.aside call) (Company.aside call) note note := by
  rintro s is s' is' ⟨hrest, hmemory, his⟩
  have hreply : call s'.rest = call s.rest := congrArg call hrest
  refine ⟨?_, ?_, ?_, hmemory, sameButThought_concat his _⟩ <;> simp only [Company.aside, hreply]

theorem hides_append (S : Company τ) {entry entry' : MemoryEntry} (hentry : entry.SameButThought entry')
    (haccept : ∀ s, S.accept s entry' = S.accept s entry)
    (hR : ∀ {l l'}, R l l' → R (l ++ [entry]) (l' ++ [entry'])) :
    (Likeness.thoughts τ R).Hides (S.host.append · entry) (S.host.append · entry') (.appended entry)
      (.appended entry') := by
  rintro s is s' is' ⟨hrest, hmemory, his⟩
  have hreply : S.accept s'.rest entry' = S.accept s.rest entry := by
    rw [hrest, haccept]
  refine ⟨?_, ?_, ?_, ?_, ?_⟩ <;> simp only [Company.host, Company.append, hreply]
  · split
    · exact hR hmemory
    · exact hmemory
  · exact List.rel_append his (.cons (.inr ⟨_, _, _, rfl, rfl, hentry⟩) .nil)

theorem hides_recollect (S : Company τ)
    (hR : ∀ {l l'}, R l l' → List.Forall₂ MemoryEntry.SameButThought l l') (agent : String) (limit : Nat) :
    (Likeness.thoughts τ R).Hides (S.host.recollect · agent limit) (S.host.recollect · agent limit)
      (.recalled agent limit) (.recalled agent limit) := by
  rintro s is s' is' ⟨hrest, hmemory, his⟩
  have hreply : S.host.recollect s' agent limit =
      ⟨(S.host.recollect s agent limit).result, (S.host.recollect s agent limit).cancels,
        { s' with rest := (S.host.recollect s agent limit).host.rest }⟩ := by
    simp only [Company.host, Company.recollect, hrest, Memory.recent_eq (hR hmemory)]
  refine ⟨?_, ?_, ?_, hmemory, sameButThought_concat his _⟩ <;> simp only [hreply]

theorem blind_thoughts (S : Company τ) (hR : ∀ {l l'} entry, R l l' → R (l ++ [entry]) (l' ++ [entry])) :
    (Likeness.thoughts τ R).Blind S.host where
  generate := fun _ => hides_aside _ _
  useTool := fun _ _ _ => hides_aside _ _
  append := fun entry => hides_append S (.inl rfl) (fun _ => rfl) (hR entry)
  deliver := fun _ _ => hides_aside _ _
  interrupts := fun ⟨hrest, _⟩ events => congrArg (S.interrupts · events) hrest

variable {e : Engine (Remembering τ)} {r : Registry} {caller : Caller} {k : Nat} {f f' : Frame}

/-- Whatever is recalled for the model is the same. -/
theorem sees_thoughts (S : Company τ) (hhost : e.host = S.host)
    (hR : ∀ {l l'}, R l l' → List.Forall₂ MemoryEntry.SameButThought l l') (name : ProfileName) :
    (Likeness.thoughts τ R).Sees e caller caller name := by
  intro thread
  rw [context]
  cases (e.config.profile name).history with
  | full =>
    -- what is recalled is the same, since thoughts are not
    have hrecall : ∀ limit, Coupled (World.Alike (Likeness.thoughts τ R)) Eq
        (Exec.consult (fun s => e.host.recollect s caller.agent.id limit) (.recalled caller.agent.id limit))
        (Exec.consult (fun s => e.host.recollect s caller.agent.id limit) (.recalled caller.agent.id limit)) := by
      intro limit
      rw [hhost]
      exact .consult (hides_recollect S hR _ _)
    simp only [replyContext]
    split
    · exact .next (hrecall _) fun longTerm => .offHost fun _ _ _ => rfl
    · exact .next (.pure rfl) fun longTerm => .offHost fun _ _ _ => rfl
  | recent n => exact .offHost fun _ _ _ => rfl
  | none => exact .pure rfl

/-- Two private thoughts that can both be rendered leave their walks alike. -/
theorem reflect_thoughts (S : Company τ) (hhost : e.host = S.host) (haccept : S.TakesAnyText)
    {source source' text text' : String}
    (hR : ∀ {l l' entry entry'}, entry.SameButThought entry' → R l l' → R (l ++ [entry]) (l' ++ [entry']))
    (hf : f.Alike (Likeness.thoughts τ R) k f') (htext : Template.render f.region source = .ok text)
    (htext' : Template.render f.region source' = .ok text') :
    Coupled (World.Alike (Likeness.thoughts τ R)) (Frame.Alike (Likeness.thoughts τ R) k)
      (e.reflect caller source f) ((e.over r).reflect caller source' f') := by
  let entry : MemoryEntry := ⟨caller.agent.id, caller.agent.id, text, [internalTag], some f.thread, e.now⟩
  have hentry : entry.SameButThought { entry with content := text' } := .inr ⟨rfl, text', rfl⟩
  have happend := hides_append (R := R) S hentry (fun s => haccept s entry text') (hR hentry)
  rw [reflect, reflect, htext, hf.region, htext']
  obtain ⟨outputs, ho, rfl⟩ := hf
  rw [← hhost] at happend
  refine .bind (R := fun a b => a = text ∧ b = text') (.ofExcept (.ok ⟨rfl, rfl⟩)) ?_
  rintro _ _ ⟨rfl, rfl⟩
  exact .next (.consult happend) fun _ => .pure ⟨outputs, ho, rfl⟩

end Engine

/-! ### What becomes of the memory -/

/-- What a run side by side with itself keeps of its host. -/
def Likeness.keeping {σ β : Type} (V : σ → β) (v : β) : Likeness σ where
  hosts s is s' is' := V s = v ∧ s' = s ∧ is' = is
  outputs _ _ _ := True
  nodes n n' := n' = n
  outputs_refl _ _ := trivial
  outputs_append _ _ := trivial
  nodes_shape := @Node.shape_of_eq

/-- An action keeps what hosts that correspond have in common, if that is kept side by side with itself. -/
theorem Exec.Coupled.keeps {σ α α' β : Type} {V : σ → β} {w : World σ} {x : Exec σ α} {y : Exec σ α'}
    {Q : α → α' → Prop} (h : Coupled (World.Alike (.keeping V (V w.host))) Q x y) :
    V (x w).2.host = V w.host := by
  obtain ⟨⟨_, _, ⟨hkept, _, _⟩, _⟩, _⟩ := h w w ⟨w.host, w.interactions, ⟨rfl, rfl, rfl⟩, rfl⟩
  exact hkept

/-- The entries that a node appends to the memory; for a call these are appended by the nodes of its callee. -/
def Dispatch.stored (e : Engine (Remembering τ)) (caller : Caller) (d : Dispatch (Remembering τ)) :
    List MemoryEntry :=
  match d.node.kind with
  | .invoke _ => []
  | _ => (d.outcome e caller).2.host.memory.entries.drop d.standing.world.host.memory.entries.length

section

variable {S : Company τ} {e : Engine (Remembering τ)} {caller : Caller} {w w' : World (Remembering τ)}

theorem Dispatch.stored_of_calls {d : Dispatch (Remembering τ)} (h : d.Calls) : d.stored e caller = [] := by
  rcases h with ⟨c, hc⟩
  rw [stored, hc]

theorem Dispatch.stored_of_not_calls {d : Dispatch (Remembering τ)} (h : ¬ d.Calls) :
    d.stored e caller =
      (d.outcome e caller).2.host.memory.entries.drop d.standing.world.host.memory.entries.length := by
  rw [stored]
  split
  · rename_i c hc
    exact absurd ⟨c, hc⟩ h
  · rfl

/-- Entries are only added. -/
theorem Effects.memory_grows (hhost : e.host = S.host) {ok : Happening → Prop} (h : Effects e ok w w') :
    w.host.memory.entries <+: w'.host.memory.entries := by
  induction h with
  | refl => exact List.prefix_refl _
  | @tail b c _ hlast ih =>
    cases hlast with
    | consulted host cancels i hreact =>
      refine ih.trans ?_
      rw [hhost] at hreact
      -- only an append changes the memory, and it adds an entry at the end or none
      cases i with
      | appended entry result =>
        cases hreact
        simp only [Company.host, Company.append]
        split
        · exact List.prefix_append _ _
        · exact List.prefix_refl _
      | _ =>
        cases hreact
        exact List.prefix_refl _
    | _ => exact ih

/-- Between the two worlds these nodes have appended what is new in the memory. -/
def Stores (e : Engine (Remembering τ)) (caller : Caller) (l : List (Dispatch (Remembering τ)))
    (w w' : World (Remembering τ)) : Prop :=
  w'.host.memory.entries = w.host.memory.entries ++ l.flatMap (Dispatch.stored e caller)

theorem Stores.of_keeps {α β : Type} {x : Exec (Remembering τ) α} {y : Exec (Remembering τ) β}
    {Q : α → β → Prop}
    (h : Coupled (World.Alike (.keeping Remembering.memory w.host.memory)) Q x y) :
    Along (Stores e caller []) x w := by
  have hkept : (x w).2.host.memory = w.host.memory := Exec.Coupled.keeps h
  rw [Along, Stores, hkept, List.flatMap_nil, List.append_nil]

/-- Outside of its nodes a run leaves the memory alone. -/
theorem collects_stores (hhost : e.host = S.host) : Collects e caller (Stores e caller) where
  carried := {
    refl := fun _ => (List.append_nil _).symm
    trans := fun hab hbc => by
      rw [Stores, hbc, hab, List.append_assoc]
      rfl
    polled := fun _ => (List.append_nil _).symm
    opened := fun ratio label _ => .of_keeps (Engine.open?_alike (r := e.playbooks) rfl ratio label)
    rejected := fun node cause f _ => .of_keeps (Engine.reject_alike (k := 0) node node rfl rfl cause (.refl f))
    closed := fun id summarize f w => by
      have hmodel : (Likeness.keeping Remembering.memory w.host.memory).Answers e.host := by
        rintro request s is _ _ ⟨hmemory, rfl, rfl⟩
        rw [hhost]
        exact ⟨rfl, rfl, hmemory, rfl, rfl⟩
      exact .of_keeps (Engine.close_alike (r := e.playbooks) (k := 0) rfl hmodel id summarize (.refl f))
    aborted := fun id _ => .of_keeps (.aborting _ _)
    abortedAbove := fun id _ => .of_keeps (.aborting _ _) }
  append := fun hab hbc => by
    rw [Stores, hbc, hab, List.append_assoc, List.flatMap_append]
  begun := fun d w => (List.append_nil _).symm
  ended := fun what w hterm => (List.append_nil _).symm
  abortedRun := fun id _ => .of_keeps (.aborting _ _)

/-- A node that calls no playbook has appended what is new in the memory when it is done. -/
theorem Dispatch.counts_stores (hhost : e.host = S.host) (d : Dispatch (Remembering τ)) :
    d.Counts e caller (Stores e caller) where
  leaf := fun hcalls => by
    obtain ⟨new, hnew⟩ := (Standing.outcome_effects e caller d.standing d.node).memory_grows hhost
    have hstored : d.stored e caller = new := by
      rw [stored_of_not_calls hcalls, outcome, ← hnew, List.drop_left]
    rw [Stores, List.flatMap_singleton, hstored]
    exact hnew.symm
  call := fun hcalls => by
    rw [Stores, List.flatMap_singleton, stored_of_calls hcalls, List.append_nil]
    rfl
  ticked := fun w => (List.append_nil _).symm

/-- The memory after a run: what it held before, and what the nodes of the run have appended, in their order. -/
theorem Engine.memory_of_run (hhost : e.host = S.host) (name : String) (args : Dict Json)
    (w : World (Remembering τ)) :
    (e.run caller name args w).2.host.memory.entries =
      w.host.memory.entries ++ (e.dispatched caller name args w).flatMap (Dispatch.stored e caller) :=
  run_collects (collects_stores hhost) fun d _ => d.counts_stores hhost

end

/-! ### Two runs -/

/-- The entries of two memories that have grown side by side from there, by entries that are related so. -/
def Grown (q : MemoryEntry → MemoryEntry → Prop) (m m' l l' : List MemoryEntry) : Prop :=
  ∃ new new', l = m ++ new ∧ l' = m' ++ new' ∧ List.Forall₂ q new new'

namespace Grown

variable {q : MemoryEntry → MemoryEntry → Prop} {m m' l l' : List MemoryEntry}

theorem refl (q : MemoryEntry → MemoryEntry → Prop) (m m' : List MemoryEntry) : Grown q m m' m m' :=
  ⟨[], [], (List.append_nil m).symm, (List.append_nil m').symm, .nil⟩

theorem concat {entry entry' : MemoryEntry} (h : Grown q m m' l l') (hentry : q entry entry') :
    Grown q m m' (l ++ [entry]) (l' ++ [entry']) := by
  obtain ⟨new, new', rfl, rfl, hnew⟩ := h
  exact ⟨new ++ [entry], new' ++ [entry'], List.append_assoc .., List.append_assoc ..,
    List.rel_append hnew (.cons hentry .nil)⟩

theorem sameButThought (h : Grown q m m' l l') (hm : List.Forall₂ MemoryEntry.SameButThought m m')
    (hq : ∀ a b, q a b → a.SameButThought b) : List.Forall₂ MemoryEntry.SameButThought l l' := by
  obtain ⟨new, new', rfl, rfl, hnew⟩ := h
  exact List.rel_append hm (hnew.imp hq)

theorem drop (h : Grown q m m' l l') : List.Forall₂ q (l.drop m.length) (l'.drop m'.length) := by
  obtain ⟨new, new', rfl, rfl, hnew⟩ := h
  rw [List.drop_left, List.drop_left]
  exact hnew

end Grown

/-- Playbooks that are the same but for their private thoughts have the same nodes but for these. -/
theorem Node.SameButThought.find? {nodes nodes' : List Node} (h : List.Forall₂ Node.SameButThought nodes nodes')
    (id : String) :
    Option.Rel Node.SameButThought (nodes.find? fun n => n.id == id) (nodes'.find? fun n => n.id == id) := by
  induction h with
  | nil => exact .none
  | @cons n n' _ _ hn _ ih =>
    have hid : n'.id = n.id := by
      rcases hn with rfl | ⟨_, _, _, rfl⟩ <;> rfl
    simp only [List.find?_cons, hid]
    split
    · exact .some hn
    · exact ih

theorem Registry.SameButThoughts.alike {r r' : Registry} (h : r.SameButThoughts r')
    (R : List MemoryEntry → List MemoryEntry → Prop) : Registry.Alike (.thoughts τ R) r r' := by
  intro name
  have hrel := h name
  generalize r.get? name = o, r'.get? name = o' at hrel
  cases hrel with
  | none => exact .none
  | @some d d' hd =>
    obtain ⟨nodes, hnodes, hgraph⟩ := hd
    refine .some ⟨?_, ?_, ?_, fun id => ?_⟩
    · simp only [Definition.name, hgraph]
    · simp only [Definition.start, hgraph]
    · simp only [Definition.paramNames, hgraph]
    · simp only [Definition.node?, hgraph]
      exact Node.SameButThought.find? hnodes id

/-- If the node is a private thought, it can be rendered. -/
def Dispatch.Renders (d : Dispatch (Remembering τ)) : Prop :=
  ∀ content, d.node.kind = .reflect content →
    ∃ text, Template.render d.standing.frame.region content = .ok text

/-- The nodes append the same, or they are private thoughts and their entries differ in the text. -/
def Dispatch.StoreAlike (e : Engine (Remembering τ)) (r : Registry) (caller : Caller)
    (d d' : Dispatch (Remembering τ)) : Prop :=
  d'.stored (e.over r) caller = d.stored e caller ∨
    ((∃ content, d.node.kind = .reflect content) ∧
      List.Forall₂ MemoryEntry.SameButThought (d.stored e caller) (d'.stored (e.over r) caller))

section

variable {S : Company τ} {e : Engine (Remembering τ)} {r : Registry} {caller : Caller}
  {R : List MemoryEntry → List MemoryEntry → Prop} {d d' : Dispatch (Remembering τ)}

theorem Dispatch.Alike.doAlike_of_same (hhost : e.host = S.host) (h : d.Alike (.thoughts τ R) d')
    (hR : ∀ {l l'} entry, R l l' → R (l ++ [entry]) (l' ++ [entry]))
    (hrecall : ∀ {l l'}, R l l' → List.Forall₂ MemoryEntry.SameButThought l l') (hnode : d'.node = d.node)
    (hcalls : ¬ d.Calls) : d.DoAlike (.thoughts τ R) e r caller caller d' := by
  have hblind : (Likeness.thoughts τ R).Blind e.host := hhost ▸ Engine.blind_thoughts S hR
  exact h.doAlike hnode rfl hblind (fun g _ => Engine.sees_thoughts S hhost hrecall g.profile)
    (fun _ => .inl rfl) hcalls

theorem Dispatch.Alike.doAlike_of_reflect (hhost : e.host = S.host) (haccept : S.TakesAnyText)
    (h : d.Alike (.thoughts τ R) d')
    (hR : ∀ {l l' entry entry'}, entry.SameButThought entry' → R l l' → R (l ++ [entry]) (l' ++ [entry']))
    {content content' : String} (hkind : d.node.kind = .reflect content)
    (hkind' : d'.node.kind = .reflect content') (hrender : d.Renders) (hrender' : d'.Renders) :
    d.DoAlike (.thoughts τ R) e r caller caller d' := by
  obtain ⟨text, htext⟩ := hrender content hkind
  obtain ⟨text', htext'⟩ := hrender' content' hkind'
  obtain ⟨p', node', hp, hnode, rfl⟩ := h
  rw [hp.frame.region] at htext'
  have hkind' : node'.kind = .reflect content' := hkind'
  have hworld := Standing.announced_alike (rfl : caller.agent = caller.agent) hp hnode
  have hreflect : Coupled (World.Alike (.thoughts τ R)) (Frame.Alike (.thoughts τ R) d.depth)
      (e.reflect caller content d.standing.frame) ((e.over r).reflect caller content' p'.frame) :=
    Engine.reflect_thoughts S hhost haccept hR hp.frame htext htext'
  simp only [DoAlike, outcome, Standing.outcome, Engine.dispatch, hkind, hkind']
  exact (hreflect.bind fun _ _ hf => .pure ⟨rfl, hf⟩) _ _ hworld

/-- Where two nodes are dispatched, their memories start to grow side by side. -/
theorem Dispatch.Alike.grown (h : d.Alike (.thoughts τ R) d') (q : MemoryEntry → MemoryEntry → Prop) :
    d.Alike
      (.thoughts τ (Grown q d.standing.world.host.memory.entries d'.standing.world.host.memory.entries)) d' := by
  obtain ⟨_, node, ⟨playbook, frame, _, hplaybook, hframe,
      ⟨host, interactions, ⟨hrest, _, his⟩, rfl⟩, rfl⟩,
    hnode, rfl⟩ := h
  exact ⟨_, node, ⟨playbook, frame, _, ⟨hplaybook.name, hplaybook.start, hplaybook.params, hplaybook.node⟩, hframe,
    ⟨host, interactions, ⟨hrest, .refl q _ _, his⟩, rfl⟩, rfl⟩, hnode, rfl⟩

/-- What they append is related so, if they leave the memories so. -/
theorem Dispatch.DoAlike.stored {q : MemoryEntry → MemoryEntry → Prop}
    (h : d.DoAlike (.thoughts τ (Grown q d.standing.world.host.memory.entries
      d'.standing.world.host.memory.entries)) e r caller caller d') (hcalls : ¬ d.Calls) (hcalls' : ¬ d'.Calls) :
    List.Forall₂ q (d.stored e caller) (d'.stored (e.over r) caller) := by
  obtain ⟨⟨host, interactions, ⟨_, hgrown, _⟩, hworld⟩, _⟩ := h
  rw [stored_of_not_calls hcalls, stored_of_not_calls hcalls', hworld]
  exact hgrown.drop

/-- Two nodes that are dispatched side by side append the same but for private thoughts. -/
theorem Dispatch.Alike.storeAlike (hhost : e.host = S.host) (haccept : S.TakesAnyText)
    (h : d.Alike (.thoughts τ (List.Forall₂ MemoryEntry.SameButThought)) d') (hrender : d.Renders)
    (hrender' : d'.Renders) : d.StoreAlike e r caller d' := by
  by_cases hcalls : d.Calls
  · left
    rw [stored_of_calls hcalls, stored_of_calls (h.calls_iff.2 hcalls)]
  · -- a node that calls nothing stores the same on both sides, or else it reflects
    have hmemory : List.Forall₂ MemoryEntry.SameButThought d.standing.world.host.memory.entries
        d'.standing.world.host.memory.entries := by
      obtain ⟨_, _, ⟨_, _, _, _, _, ⟨_, _, ⟨_, hmemory, _⟩, rfl⟩, rfl⟩, _, rfl⟩ := h
      exact hmemory
    have hcalls' : ¬ d'.Calls := fun h' => hcalls (h.calls_iff.1 h')
    rcases h.nodes with hsame | ⟨content, content', hkind, hnode⟩
    · refine .inl ?_
      have hdo : d.DoAlike _ e r caller caller d' := (h.grown Eq).doAlike_of_same hhost
        (fun _ hg => hg.concat rfl) (fun hg => hg.sameButThought hmemory fun a b hab => .inl hab.symm) hsame hcalls
      exact (List.forall₂_eq_eq_eq ▸ hdo.stored hcalls hcalls').symm
    · refine .inr ⟨⟨content, hkind⟩, ?_⟩
      have hkind' : d'.node.kind = .reflect content' := by rw [hnode]
      have hdo : d.DoAlike _ e r caller caller d' := (h.grown MemoryEntry.SameButThought).doAlike_of_reflect hhost
        haccept (fun hentry hg => hg.concat hentry) hkind hkind' hrender hrender'
      exact hdo.stored hcalls hcalls'

end

/-- Private thoughts never leak. Let two collections of playbooks be the same but for the texts of their private
thoughts, let all private thoughts that are dispatched have texts that can be rendered, and let the memory not
refuse an entry for its text. Then the runs of a playbook end alike or fail of the same cause; they make the same
calls of the host with the same results, but for the texts of private thoughts that are appended to the memory;
apart from the memory they leave the same world behind, with the same log, usage, trace and hierarchy; each
memory holds what it held before and what the nodes have appended, which is the same in both runs but for the
texts of private thoughts; and whatever an agent recalls later is the same. -/
theorem Engine.thoughts_of_run {e : Engine (Remembering τ)} (S : Company τ) (hhost : e.host = S.host)
    (haccept : S.TakesAnyText) {r : Registry} (hplaybooks : e.playbooks.SameButThoughts r) (caller : Caller)
    (name : String) (args : Dict Json) (w : World (Remembering τ))
    (hrender : ∀ d ∈ e.dispatched caller name args w, d.Renders)
    (hrender' : ∀ d ∈ (e.over r).dispatched caller name args w, d.Renders) :
    ((e.over r).run caller name args w).1 = (e.run caller name args w).1 ∧
      (∃ memory interactions,
        List.Forall₂ Interaction.SameButThought (e.run caller name args w).2.interactions interactions ∧
        ((e.over r).run caller name args w).2 =
          { (e.run caller name args w).2 with
            host := { (e.run caller name args w).2.host with memory }
            interactions }) ∧
      (e.run caller name args w).2.host.memory.entries =
        w.host.memory.entries ++ (e.dispatched caller name args w).flatMap (Dispatch.stored e caller) ∧
      ((e.over r).run caller name args w).2.host.memory.entries =
        w.host.memory.entries ++
          ((e.over r).dispatched caller name args w).flatMap (Dispatch.stored (e.over r) caller) ∧
      List.Forall₂ (Dispatch.StoreAlike e r caller) (e.dispatched caller name args w)
        ((e.over r).dispatched caller name args w) ∧
      ∀ agent limit, ((e.over r).run caller name args w).2.host.memory.recent agent limit =
        (e.run caller name args w).2.host.memory.recent agent limit := by
  let L : Likeness (Remembering τ) := .thoughts τ (List.Forall₂ MemoryEntry.SameButThought)
  have hsame : ∀ l : List MemoryEntry, List.Forall₂ MemoryEntry.SameButThought l l :=
    fun l => List.forall₂_same.2 fun _ _ => .inl rfl
  have hblind : L.Blind e.host :=
    hhost ▸ blind_thoughts S fun entry h => List.rel_append h (.cons (.inl rfl) .nil)
  have halike : Registry.Alike L e.playbooks r := hplaybooks.alike _
  have hstart : World.Alike L w w := by
    refine ⟨w.host, w.interactions, ⟨rfl, hsame _, ?_⟩, rfl⟩
    exact List.forall₂_same.2 fun _ _ => .inl rfl
  -- a node that is the same sees the same, and two thoughts differ only in what they store
  have hleaf : ∀ d ∈ e.dispatched caller name args w, ∀ d' ∈ (e.over r).dispatched caller name args w,
      d.Alike L d' → ¬ d.Calls → d.DoAlike L e r caller caller d' := by
    intro d hd d' hd' h hcalls
    rcases h.nodes with hnode | ⟨content, content', hkind, hnode⟩
    · exact h.doAlike_of_same hhost (fun entry h => List.rel_append h (.cons (.inl rfl) .nil)) id hnode hcalls
    · exact h.doAlike_of_reflect hhost haccept (fun hentry h => List.rel_append h (.cons hentry .nil)) hkind
        (by rw [hnode]) (hrender d hd) (hrender' d' hd')
  have hdispatched := (start_alike rfl hblind halike hstart hleaf).2
  obtain ⟨⟨⟨rest, memory⟩, interactions, ⟨hrest, hmemory, hinteractions⟩, hworld⟩, hresult⟩ :=
    run_alike rfl hblind halike (fun _ _ h => congrArg List.length h) hstart hleaf
  refine ⟨?_, ⟨memory, interactions, hinteractions, ?_⟩, memory_of_run hhost name args w,
    memory_of_run (e := e.over r) hhost name args w, ?_, ?_⟩
  · exact (hresult.mono fun o o' h => (h.eq fun _ _ h => h).symm).eq
  · rw [hworld]
    cases hrest
    rfl
  · obtain ⟨hlength, hpairs⟩ := List.forall₂_iff_zip.1 hdispatched
    refine List.forall₂_iff_zip.2 ⟨hlength, fun {d d'} hmem => ?_⟩
    obtain ⟨hd, hd'⟩ := List.of_mem_zip hmem
    exact (hpairs hmem).storeAlike hhost haccept (hrender d hd) (hrender' d' hd')
  · intro agent limit
    rw [hworld]
    exact Memory.recent_eq hmemory agent limit

/-! ## Pages of a diary -/

namespace Diary

/-- Thinks by itself, remembers something, and goes on with the conversation. -/
def page (thought : String) : Graph :=
  ⟨"page", none, "think", [],
    [⟨"think", .reflect thought, some "note", []⟩,
      ⟨"note", .record ⟨"it rains", [longTermTag], none⟩, some "reply", []⟩,
      ⟨"reply", .generate ⟨.conversation, "go on", none, "answer"⟩, some "say", []⟩,
      ⟨"say", .emit "\x7banswer\x7d", none, []⟩]⟩

def calm : Definition := ⟨page "all is well", Schema.truthValues, by decide⟩

def worried : Definition := ⟨page "will it stop?", Schema.truthValues, by decide⟩

/-- The thoughts of a page are texts without placeholders. -/
theorem renders {thought text : String} {d : Definition} (hgraph : d.graph = page thought)
    (hbook : (book d).playbooks.values = [d])
    (htext : ∀ r, Template.render r thought = .ok text) :
    ∀ a ∈ (desk d).dispatched Outing.traveller "page" .empty world, a.Renders := by
  intro a ha content hkind
  obtain ⟨hvisited, hdispatches, _⟩ := Engine.mem_dispatched_iff.1 ha
  obtain ⟨name, hname⟩ := (Engine.upright_of_run Hierarchy.unary_injective (settled d) hvisited).registered
  have hplaybook : a.standing.playbook = d := by
    have hmem : a.standing.playbook ∈ (book d).playbooks.values := Dict.mem_values_iff.2 ⟨name, hname⟩
    rw [hbook] at hmem
    exact List.mem_singleton.1 hmem
  have hnode : a.node ∈ (page thought).nodes := by
    rw [← hgraph, ← hplaybook]
    exact Definition.node_mem hdispatches.node_eq
  simp only [page, List.mem_cons, List.not_mem_nil, or_false] at hnode
  -- of the four nodes of the page one reflects
  rcases hnode with h | h | h | h
  all_goals
    rw [h] at hkind
    cases hkind
  exact ⟨text, htext _⟩

end Diary

/-- Whether the writer is calm or worried, the same is said and the same can be recalled; only the thought itself
is another one. -/
theorem Diary.page_thoughts :
    ∃ o, ((Diary.desk Diary.calm).run Outing.traveller "page" .empty Diary.world).1 = .ok o ∧
      ((Diary.desk Diary.worried).run Outing.traveller "page" .empty Diary.world).1 = .ok o ∧
      o.outputs.map (·.content) =
        ["it rains", "You are Agent.\n\n## Long-term memory\n- it rains"] ∧
      ((Diary.desk Diary.calm).run Outing.traveller "page" .empty Diary.world).2.host.memory.entries.map
        (·.content) = "all is well" :: o.outputs.map (·.content) ∧
      ((Diary.desk Diary.worried).run Outing.traveller "page" .empty Diary.world).2.host.memory.entries.map
        (·.content) = "will it stop?" :: o.outputs.map (·.content) := by
  have hplaybooks : (Diary.book Diary.calm).SameButThoughts (Diary.book Diary.worried) := by
    intro name
    have hcalm : Diary.book Diary.calm = ⟨Dict.empty.insert "page" Diary.calm⟩ := rfl
    have hworried : Diary.book Diary.worried = ⟨Dict.empty.insert "page" Diary.worried⟩ := rfl
    simp only [hcalm, hworried, Registry.get?, Dict.get?_insert]
    split
    · refine .some ⟨_, .cons (.inr ⟨_, "will it stop?", rfl, rfl⟩) ?_, rfl⟩
      exact List.forall₂_same.2 fun n _ => .inl rfl
    · exact .none
  obtain ⟨hsame, _⟩ := Engine.thoughts_of_run Diary.company rfl (fun _ _ _ => rfl) hplaybooks Outing.traveller
    "page" .empty Diary.world (Diary.renders rfl rfl fun r => rfl) (Diary.renders rfl rfl fun r => rfl)
  have houtputs : ((Diary.desk Diary.calm).run Outing.traveller "page" .empty Diary.world).1.toOption.map
      (fun o => o.outputs.map (·.content)) =
        some ["it rains", "You are Agent.\n\n## Long-term memory\n- it rains"] := by decide +kernel
  have hcalm : ((Diary.desk Diary.calm).run Outing.traveller "page" .empty Diary.world).2.host.memory.entries.map
      (·.content) = ["all is well", "it rains", "You are Agent.\n\n## Long-term memory\n- it rains"] := by
    decide +kernel
  have hworried : ((Diary.desk Diary.worried).run Outing.traveller "page" .empty
      Diary.world).2.host.memory.entries.map (·.content) =
        ["will it stop?", "it rains", "You are Agent.\n\n## Long-term memory\n- it rains"] := by decide +kernel
  cases hrun : ((Diary.desk Diary.calm).run Outing.traveller "page" .empty Diary.world).1 with
  | error cause =>
    rw [hrun] at houtputs
    cases houtputs
  | ok o =>
    rw [hrun] at houtputs hsame
    have ho : o.outputs.map (·.content) = _ := Option.some.inj houtputs
    refine ⟨o, rfl, hsame, ho, ?_, ?_⟩
    · rw [ho]
      exact hcalm
    · rw [ho]
      exact hworried

end Playbook
