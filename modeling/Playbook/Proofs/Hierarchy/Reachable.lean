import Playbook.Proofs.Hierarchy.WellFormed

/-! # Hierarchies that can be reached

The calls that change a hierarchy, in any order and with any arguments, and what holds after them. A
rejected call changes nothing, and only an accepted entry draws a name.

Main statements: `Sound.apply` says that each call keeps the invariant and only lets the hierarchy grow,
`Sound.run` that the invariant holds after every sequence of calls, and `invariant_of_reachable` spells it
out.
-/

namespace Playbook.Hierarchy

/-! ## Calls -/

/-- A call that changes a hierarchy. -/
inductive Move where
  | enter (ratio : Option Double) (label : Option String) (now : Time)
  | leave (id : ThreadId) (chronicle : Option String) (now : Time)
  | abort (id : ThreadId) (now : Time)
  | abortAbove (mark : ThreadId) (now : Time)
  | abortRun (mark : ThreadId) (now : Time)
  | record (role : Role) (content : String) (tags : List String)
  | recordIn (id : ThreadId) (role : Role) (content : String) (tags : List String)

namespace Move

/-- The answer of a call, where an entry takes the next name. -/
def answer (h : Hierarchy) (next : ThreadId) : Move → Except Error Hierarchy
  | .enter ratio label now => h.enter next ratio label now
  | .leave id chronicle now => h.leave id chronicle now
  | .abort id now => (h.abort id now).map Prod.fst
  | .abortAbove mark now => (h.abortAbove mark now).map Prod.fst
  | .abortRun mark now => (h.abortRun mark now).map Prod.fst
  | .record role content tags => h.record role content tags
  | .recordIn id role content tags => h.recordIn id role content tags

/-- How many names a call takes when it is accepted. -/
def draws : Move → Nat
  | .enter .. => 1
  | _ => 0

end Move

/-- A hierarchy with the count of the names that were drawn for it. -/
structure Numbered where
  hierarchy : Hierarchy
  drawn : Nat

namespace Numbered

section

variable (supply : Nat → ThreadId)

/-- A new hierarchy, whose primary session has the first name. -/
def start (agent : String) (budget : Nat) (limits : Limits) (now : Time) : Numbered :=
  ⟨.new agent (supply 0) budget limits now, 1⟩

/-- One call; when it is rejected nothing changes. -/
def apply (s : Numbered) (m : Move) : Numbered :=
  match m.answer s.hierarchy (supply s.drawn) with
  | .ok h => ⟨h, s.drawn + m.draws⟩
  | .error _ => s

/-- Any number of calls, one after the other. -/
def run (s : Numbered) (moves : List Move) : Numbered := moves.foldl (apply supply) s

/-- The names that were drawn, in the order in which they were drawn. -/
def names (s : Numbered) : List ThreadId := (List.range s.drawn).map supply

end

end Numbered

/-! ## The invariant -/

/-- What every call keeps: the open threads are the path to the active one, the threads have the names that
were drawn, none is too deep, the anchors of a thread are its children in the order of their names, and
only completed threads have chronicles. -/
structure Sound (names : List ThreadId) (h : Hierarchy) : Prop where
  openPath : OpenPath h
  mem_names : ∀ id, h.get? id ≠ none ↔ id ∈ names
  depth_le : ∀ {id t}, h.get? id = some t → t.depth ≤ h.limits.maxDepth
  anchors_eq : ∀ {id t}, h.get? id = some t →
    t.anchors = names.filter (fun c => h.parent? c = some id)
  completed : ∀ {id t}, h.get? id = some t → t.chronicle ≠ none → t.status = .completed

variable {names : List ThreadId} {h h' : Hierarchy}

/-- An entry gives the new session its parent and changes no other. -/
theorem Enters.parent?_eq (ht : IsTree h) {id : ThreadId} {p : Thread} {ratio : Double}
    {label : Option String} {now : Time}
    (he : Enters h h' id p (Thread.nested id p ratio label now)) (c : ThreadId) :
    h'.parent? c = if c = id then some h.active else h.parent? c := by
  by_cases hc : c = id
  · rw [if_pos hc, parent?, hc, he.get?_new]
    exact congrArg some (ht.id_eq he.parent)
  · rw [if_neg hc, parent?, he.get?_old hc, parent?]
    cases h.get? c with
    | none => rfl
    | some t =>
      simp only [Option.map_some, Option.bind_some]
      split <;> rfl

namespace Sound

theorem new (agent : String) (root : ThreadId) (budget : Nat) (limits : Limits) (now : Time) :
    Sound [root] (.new agent root budget limits now) := by
  have hget : ∀ id, (Hierarchy.new agent root budget limits now).get? id =
      if id = root then some (Thread.primary root budget now) else none := fun id => by
    rw [get?, Hierarchy.new, Dict.get?_insert]
    rfl
  have hsome : ∀ {id t}, (Hierarchy.new agent root budget limits now).get? id = some t →
      id = root ∧ t = Thread.primary root budget now := fun {id t} hg => by
    rw [hget] at hg
    split at hg
    · cases hg
      exact ⟨‹_›, rfl⟩
    · cases hg
  have hroot : (Hierarchy.new agent root budget limits now).get? root =
      some (Thread.primary root budget now) := by
    rw [hget, if_pos rfl]
  have htree : IsTree (Hierarchy.new agent root budget limits now) :=
    { id_eq := fun hg => by
        rcases hsome hg with ⟨rfl, rfl⟩
        rfl
      root_mem := ⟨_, hroot, rfl, rfl⟩
      eq_root := fun hg _ => (hsome hg).1
      parent_mem := fun hg hp => by
        rcases hsome hg with ⟨_, rfl⟩
        cases hp }
  -- the root is the only thread, it is open, and nothing is anchored
  refine { openPath := { htree with active_mem := ⟨_, hroot⟩, active_iff := fun {id t} hg => ?_ },
           mem_names := fun id => ?_, depth_le := fun hg => ?_, anchors_eq := fun hg => ?_,
           completed := fun hg hc => ?_ }
  · rcases hsome hg with ⟨rfl, rfl⟩
    exact ⟨fun _ => htree.self_mem_lineage hroot, fun _ => rfl⟩
  · simp [hget]
  · rcases hsome hg with ⟨_, rfl⟩
    exact Nat.zero_le _
  · rcases hsome hg with ⟨rfl, rfl⟩
    simp [parent?, hroot, Thread.primary, Thread.anchors]
  · rcases hsome hg with ⟨_, rfl⟩
    exact absurd rfl hc

/-- A change that enters nothing keeps the invariant. -/
theorem steady (hs : Sound names h) (hc : Steady h h') : Sound names h' where
  openPath := hc.openPath
  mem_names := fun id => (hc.places.ne_none_iff id).trans (hs.mem_names id)
  depth_le := fun {id t'} hg' => by
    rcases hc.places.some_right hg' with ⟨t, hg, hplace⟩
    have hdepth : t.depth = t'.depth := congrArg (fun x => x.2.2.1) hplace
    rw [← hdepth, hc.grows.limits]
    exact hs.depth_le hg
  anchors_eq := fun {id t'} hg' => by
    rcases hc.places.some_right hg' with ⟨t, hg, hplace⟩
    have hanchors : t.anchors = t'.anchors := congrArg (fun x => x.2.2.2) hplace
    rw [← hanchors, hs.anchors_eq hg]
    exact List.filter_congr fun c _ => by rw [hc.places.parent?_eq]
  completed := fun {id t'} hg' hchr => by
    rcases hc.places.some_right hg' with ⟨t, hg, _⟩
    have hgrow := hc.grows.thread' hg hg'
    by_cases hst : t'.status = t.status
    · rw [hst]
      exact hs.completed hg (hgrow.kept hst ▸ hchr)
    · -- the thread was closed by this change, and an aborted one has no chronicle
      have hact : t.status = .active := by
        by_contra hne
        exact hst (hgrow.closed hne)
      cases hst' : t'.status with
      | active => exact absurd (hst'.trans hact.symm) hst
      | completed => rfl
      | aborted => exact absurd (hgrow.aborted hact hst') hchr

/-- What was not drawn is the name of no thread. -/
theorem fresh (hs : Sound names h) {id : ThreadId} (hid : id ∉ names) : h.get? id = none := by
  by_contra hne
  exact hid ((hs.mem_names id).1 hne)

/-- Entering under a name that was not drawn before keeps the invariant. -/
theorem enter (hs : Sound names h) {id : ThreadId} (hid : id ∉ names) {p : Thread} {ratio : Double}
    {label : Option String} {now : Time}
    (he : Enters h h' id p (Thread.nested id p ratio label now)) :
    Sound (names ++ [id]) h' := by
  have hfresh : h.get? id = none := hs.fresh hid
  have ht : IsTree h := hs.openPath.toIsTree
  -- a child of the new name would have had a parent that was not there
  have hparent : ∀ c, h.parent? c ≠ some id := fun c hc => by
    obtain ⟨t, hg, hp⟩ := parent?_eq_some.1 hc
    rcases ht.parent_mem hg hp with ⟨q, hq, _⟩
    rw [hfresh] at hq
    cases hq
  have hactive : h.active ≠ id := fun heq => by
    have := he.parent
    rw [heq, hfresh] at this
    cases this
  -- among the old names nothing has changed
  have hold : ∀ x, names.filter (fun c => h'.parent? c = some x) =
      names.filter (fun c => h.parent? c = some x) := fun x =>
    List.filter_congr fun c hc => by
      have hne : c ≠ id := fun heq => hid (heq ▸ hc)
      rw [he.parent?_eq ht, if_neg hne]
  have hown : h'.parent? id = some h.active := by
    rw [he.parent?_eq ht, if_pos rfl]
  refine { openPath := (OpenPath.enter hs.openPath hfresh he).1, mem_names := fun x => ?_,
           depth_le := fun {x t} hg => ?_, anchors_eq := fun {x t} hg => ?_,
           completed := fun {x t} hg hc => ?_ }
  · rw [List.mem_append, List.mem_singleton]
    by_cases hx : x = id
    · simp [hx, he.get?_new]
    · rw [he.get?_old hx, ← hs.mem_names x]
      simp [hx]
  · rw [he.limits]
    by_cases hx : x = id
    · rw [hx, he.get?_new] at hg
      cases hg
      exact he.depth_lt
    · rw [he.get?_old hx] at hg
      rcases Option.map_eq_some_iff.1 hg with ⟨u, hu, rfl⟩
      have := hs.depth_le hu
      split <;> exact this
  · rw [List.filter_append, hold]
    by_cases hx : x = id
    · -- nothing is nested in the new session
      rw [hx, he.get?_new] at hg
      cases hg
      simp [Thread.nested, Thread.anchors, hx, hparent, hown, hactive]
    · rw [he.get?_old hx] at hg
      rcases Option.map_eq_some_iff.1 hg with ⟨u, hu, rfl⟩
      rw [← hs.anchors_eq hu]
      -- the parent gets one anchor, and the new name comes last among its children
      by_cases hxa : x = h.active
      · rw [if_pos hxa, Thread.push_anchors_anchor]
        simp [hown, hxa]
      · rw [if_neg hxa]
        simp [hown, Ne.symm hxa]
  · by_cases hx : x = id
    · rw [hx, he.get?_new] at hg
      cases hg
      exact absurd rfl hc
    · rw [he.get?_old hx] at hg
      rcases Option.map_eq_some_iff.1 hg with ⟨u, hu, rfl⟩
      -- an anchor changes neither status nor chronicle
      have hkept : ∀ v : Thread, (if x = h.active then v.push (.anchor id) else v).status = v.status ∧
          (if x = h.active then v.push (.anchor id) else v).chronicle = v.chronicle := fun v => by
        split <;> exact ⟨rfl, rfl⟩
      rw [(hkept u).2] at hc
      rw [(hkept u).1]
      exact hs.completed hu hc

/-- The anchors of a sound hierarchy are its parents read backwards. -/
theorem wellFormed (hs : Sound names h) (hnd : names.Nodup) : WellFormed h :=
  { hs.openPath with
    anchors_nodup := fun hg => by
      rw [hs.anchors_eq hg]
      exact hnd.filter _
    mem_anchors := fun {id t c} hg => by
      rw [hs.anchors_eq hg, List.mem_filter, decide_eq_true_eq]
      refine and_iff_right_of_imp ?_
      intro hp
      obtain ⟨u, hu, _⟩ := parent?_eq_some.1 hp
      exact (hs.mem_names c).1 (by simp [hu])
    completed := hs.completed }

end Sound

/-! ## Every call keeps the invariant -/

theorem fst_eq_ok {r : Except Error (Hierarchy × List ThreadId)} (hr : r.map Prod.fst = .ok h') :
    ∃ ids, r = .ok (h', ids) := by
  cases r with
  | error e => cases hr
  | ok a =>
    cases hr
    exact ⟨a.2, rfl⟩

/-- A call that takes no name enters nothing. -/
theorem Move.steady (ho : OpenPath h) {next : ThreadId} {m : Move} (hm : m.draws = 0)
    (ha : m.answer h next = .ok h') : Steady h h' := by
  cases m with
  | enter ratio label now => cases hm
  | leave id chronicle now => exact ho.leave ha
  | abort id now =>
    rcases fst_eq_ok ha with ⟨ids, hr⟩
    exact ho.abort hr
  | abortAbove mark now =>
    rcases fst_eq_ok ha with ⟨ids, hr⟩
    exact ho.abortAbove hr
  | abortRun mark now =>
    rcases fst_eq_ok ha with ⟨ids, hr⟩
    exact ho.abortRun hr
  | record role content tags => exact ho.recordIn ha
  | recordIn id role content tags => exact ho.recordIn ha

variable {supply : Nat → ThreadId} {s : Numbered}

theorem Numbered.names_nodup (hinj : Function.Injective supply) (s : Numbered) :
    (s.names supply).Nodup :=
  List.nodup_range.map hinj

/-- The next name is not among those that were drawn. -/
theorem Numbered.next_not_mem (hinj : Function.Injective supply) (s : Numbered) :
    supply s.drawn ∉ s.names supply := by
  intro hmem
  rcases List.mem_map.1 hmem with ⟨k, hk, heq⟩
  rw [hinj heq] at hk
  exact absurd (List.mem_range.1 hk) (Nat.lt_irrefl _)

namespace Sound

/-- Each call keeps the invariant, and the hierarchy only grows. -/
theorem apply (hinj : Function.Injective supply) (hs : Sound (s.names supply) s.hierarchy)
    (m : Move) : Sound ((s.apply supply m).names supply) (s.apply supply m).hierarchy ∧
      Grows s.hierarchy (s.apply supply m).hierarchy := by
  unfold Numbered.apply
  split
  case h_2 => exact ⟨hs, .refl _⟩
  case h_1 h' ha =>
    -- only an entry draws a name
    by_cases hm : m.draws = 0
    · have hc := Move.steady hs.openPath hm ha
      rw [hm]
      exact ⟨hs.steady hc, hc.grows⟩
    · cases m with
      | enter ratio label now =>
        have hid := s.next_not_mem hinj
        rcases enter_ok hs.openPath.toIsTree hs.openPath.active_ne_none ha with ⟨p, he⟩
        refine ⟨?_, he.grows (hs.fresh hid)⟩
        have hnames : Numbered.names supply ⟨h', s.drawn + 1⟩ =
            s.names supply ++ [supply s.drawn] := by
          simp [Numbered.names, List.range_succ]
        rw [Move.draws, hnames]
        exact hs.enter hid he
      | _ => exact absurd rfl hm

/-- The invariant holds after every sequence of calls. -/
theorem run (hinj : Function.Injective supply) (hs : Sound (s.names supply) s.hierarchy)
    (moves : List Move) :
    Sound ((s.run supply moves).names supply) (s.run supply moves).hierarchy ∧
      Grows s.hierarchy (s.run supply moves).hierarchy := by
  induction moves generalizing s with
  | nil => exact ⟨hs, .refl _⟩
  | cons m moves ih =>
    rcases hs.apply hinj m with ⟨hstep, hgrow⟩
    rcases ih hstep with ⟨hrun, hgrow'⟩
    exact ⟨hrun, hgrow.trans hgrow'⟩

/-- The children of a thread are the threads with it as parent, in the order of the names. -/
theorem children_eq (hs : Sound names h) (id : ThreadId) :
    h.children id = (names.filterMap h.get?).filter (fun t => t.parent = some id) := by
  have hfilter : (names.filterMap h.get?).filter (fun t => t.parent = some id) =
      (names.filter (fun c => h.parent? c = some id)).filterMap h.get? := by
    rw [List.filter_filterMap, List.filterMap_filter]
    refine List.filterMap_congr ?_
    intro c _
    rw [parent?]
    cases h.get? c <;> simp [Option.filter]
  rw [hfilter]
  cases hg : h.get? id with
  | some t =>
    simp only [children, hg]
    rw [hs.anchors_eq hg]
  | none =>
    -- where there is no thread nothing has it as parent
    have hnone : ∀ c ∈ names, ¬ decide (h.parent? c = some id) = true := fun c _ hc => by
      obtain ⟨t, hgc, hp⟩ := parent?_eq_some.1 (of_decide_eq_true hc)
      rcases hs.openPath.parent_mem hgc hp with ⟨q, hq, _⟩
      rw [hg] at hq
      cases hq
    simp only [children, hg]
    rw [List.filter_eq_nil_iff.2 hnone, List.filterMap_nil]

end Sound

/-! ## What can be seen of it -/

/-- What is seen of the invariant from outside. The names are those that were drawn, in their order. -/
structure Invariant (limits : Limits) (names : List ThreadId) (h : Hierarchy) : Prop where
  root_mem : ∃ r, h.get? h.root = some r
  active_mem : ∃ a, h.get? h.active = some a
  mem_names : ∀ id, h.get? id ≠ none ↔ id ∈ names
  key : ∀ id t, h.get? id = some t → t.id = id
  root_iff : ∀ id t, h.get? id = some t → (t.parent = none ↔ id = h.root)
  parent_mem : ∀ id t p, h.get? id = some t → t.parent = some p →
    ∃ q, h.get? p = some q ∧ t.depth = q.depth + 1
  depth_le : ∀ id t, h.get? id = some t → t.depth ≤ limits.maxDepth
  /-- A path runs from the primary session to its thread, from each parent to a child. -/
  path : ∀ id t, h.get? id = some t →
    (h.pathTo id).head? = h.get? h.root ∧ (h.pathTo id).getLast? = some t ∧
      (h.pathTo id).IsChain (fun a b => b.parent = some a.id) ∧ (h.pathTo id).length = t.depth + 1
  /-- Every thread but the primary session is anchored once, over the entries of all threads. -/
  anchored_once : ∀ id t, h.get? id = some t → id ≠ h.root → h.anchored.count id = 1
  /-- An anchor stands in the parent of the session that it names. -/
  anchor_iff : ∀ id t c, h.get? id = some t →
    (c ∈ t.anchors ↔ ∃ u, h.get? c = some u ∧ u.parent = some id)
  /-- The children of a thread, in the order in which they were entered. -/
  children : ∀ id, h.children id = (names.filterMap h.get?).filter (fun t => t.parent = some id)
  open_iff : ∀ id t, h.get? id = some t → (t.status = .active ↔ t ∈ h.pathTo h.active)
  completed : ∀ id t, h.get? id = some t → t.chronicle ≠ none → t.status = .completed

theorem Sound.invariant (hs : Sound names h) (hnd : names.Nodup) :
    Invariant h.limits names h := by
  have hw : WellFormed h := hs.wellFormed hnd
  have ht : IsTree h := hw.toIsTree
  rcases ht.root_mem with ⟨r, hr, hrp, _⟩
  exact {
    root_mem := ⟨r, hr⟩
    active_mem := hw.active_mem
    mem_names := hs.mem_names
    key := fun id t hg => ht.id_eq hg
    root_iff := fun id t hg => by
      refine ⟨ht.eq_root hg, ?_⟩
      intro hroot
      rw [hroot, hr] at hg
      cases hg
      exact hrp
    parent_mem := fun id t p hg hp => ht.parent_mem hg hp
    depth_le := fun id t hg => hs.depth_le hg
    path := fun id t hg => by
      obtain ⟨hhead, hlast⟩ := ht.head?_getLast?_pathTo hg
      exact ⟨hhead, hlast, ht.isChain_pathTo id, ht.length_pathTo hg⟩
    anchored_once := fun id t hg hne => by
      cases hp : t.parent with
      | none => exact absurd (ht.eq_root hg hp) hne
      | some p =>
        have hpar : h.parent? id = some p := parent?_eq_some.2 ⟨t, hg, hp⟩
        rw [hw.count_anchored, hpar]
        rfl
    anchor_iff := fun id t c hg => (hw.mem_anchors hg).trans parent?_eq_some
    children := hs.children_eq
    open_iff := fun id t hg => (hw.active_iff hg).trans (ht.mem_pathTo_iff hg).symm
    completed := fun id t hg => hs.completed hg }

/-- What calls make of a new hierarchy with these limits. -/
def Reachable (supply : Nat → ThreadId) (limits : Limits) (s : Numbered) : Prop :=
  ∃ agent budget now moves, s = (Numbered.start supply agent budget limits now).run supply moves

theorem Reachable.sound {supply : Nat → ThreadId} (hinj : Function.Injective supply) {limits : Limits}
    {s : Numbered} (hr : Reachable supply limits s) :
    Sound (s.names supply) s.hierarchy ∧ s.hierarchy.limits = limits := by
  rcases hr with ⟨agent, budget, now, moves, rfl⟩
  have hstart : Sound ((Numbered.start supply agent budget limits now).names supply)
      (Numbered.start supply agent budget limits now).hierarchy :=
    .new agent (supply 0) budget limits now
  rcases hstart.run hinj moves with ⟨hs, hgrows⟩
  exact ⟨hs, hgrows.limits⟩

/-- A hierarchy that is made by calls has the invariant, whatever the calls were and whichever were
rejected; and no further call changes the status or the chronicle of a closed thread. -/
theorem invariant_of_reachable {supply : Nat → ThreadId} (hinj : Function.Injective supply)
    {limits : Limits} {s : Numbered} (hr : Reachable supply limits s) :
    Invariant limits (s.names supply) s.hierarchy ∧
      ∀ m id t, s.hierarchy.get? id = some t → t.status ≠ .active →
        ∃ t', (s.apply supply m).hierarchy.get? id = some t' ∧ t'.status = t.status ∧
          t'.chronicle = t.chronicle := by
  rcases hr.sound hinj with ⟨hs, rfl⟩
  refine ⟨hs.invariant (Numbered.names_nodup hinj s), ?_⟩
  intro m id t hg hst
  rcases (hs.apply hinj m).2.thread hg with ⟨t', hg', hgrow⟩
  have hkept := hgrow.closed hst
  exact ⟨t', hg', hkept, hgrow.kept hkept⟩

/-- Names that differ in their length. -/
def unary (n : Nat) : ThreadId := String.ofList (List.replicate n 'n')

theorem unary_injective : Function.Injective unary := by
  intro a b hab
  have hlen := congrArg (fun s : String => s.toList.length) hab
  simpa [unary] using hlen

/-- Two sessions, a call that is rejected, and the outer session aborted. -/
def twoEntries : Numbered :=
  (Numbered.start unary "agent" 100 .default default).run unary
    [.enter none none default, .enter none (some "inner") default, .leave "absent" none default,
      .abort "n" default]

theorem invariant_of_twoEntries :
    Reachable unary .default twoEntries ∧
      Invariant .default (twoEntries.names unary) twoEntries.hierarchy :=
  ⟨⟨"agent", 100, default, _, rfl⟩,
    (invariant_of_reachable unary_injective ⟨"agent", 100, default, _, rfl⟩).1⟩

end Playbook.Hierarchy
