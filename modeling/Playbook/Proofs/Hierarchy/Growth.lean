import Playbook.Proofs.Hierarchy.Lineage

/-! # How hierarchies grow

A hierarchy only grows: threads never go away, keep their place in the tree, and take entries at the end. A
closed thread stays closed as it is, and a thread that is aborted has no chronicle. `Grows` says so of
two states, whatever happened between them.

Main statements: `Grows.trans`, and `Grows.lineage_eq`, by which the lineage of a thread never changes.
-/

namespace Playbook

/-- What a thread keeps from one state to a later one. -/
structure Thread.Grows (t t' : Thread) : Prop where
  id : t'.id = t.id
  parent : t'.parent = t.parent
  depth : t'.depth = t.depth
  label : t'.label = t.label
  budget : t'.budget = t.budget
  /-- Entries are added at the end only. -/
  entries : t.entries <+: t'.entries
  /-- What is closed stays so, in the same way. -/
  closed : t.status ≠ .active → t'.status = t.status
  /-- A chronicle comes with the end of a thread and stays as it is. -/
  kept : t'.status = t.status → t'.chronicle = t.chronicle
  /-- An abort leaves no chronicle. -/
  aborted : t.status = .active → t'.status = .aborted → t'.chronicle = none

namespace Thread

@[simp] theorem push_parent (t : Thread) (e : Entry) : (t.push e).parent = t.parent := rfl

@[simp] theorem push_status (t : Thread) (e : Entry) : (t.push e).status = t.status := rfl

@[simp] theorem close_parent (t : Thread) (s : ThreadStatus) (c : Option String) (now : Time) :
    (t.close s c now).parent = t.parent := rfl

@[simp] theorem close_status (t : Thread) (s : ThreadStatus) (c : Option String) (now : Time) :
    (t.close s c now).status = s := rfl

@[simp] theorem close_chronicle (t : Thread) (s : ThreadStatus) (c : Option String) (now : Time) :
    (t.close s c now).chronicle = c := rfl

@[simp] theorem close_anchors (t : Thread) (s : ThreadStatus) (c : Option String) (now : Time) :
    (t.close s c now).anchors = t.anchors := rfl

/-- A message anchors nothing. -/
theorem push_anchors_message (t : Thread) (role : Role) (content : String) (tags : List String) :
    (t.push (.message role content tags)).anchors = t.anchors := by
  simp [push, anchors, Entry.anchor?]

/-- An anchor stands behind those that the thread has. -/
theorem push_anchors_anchor (t : Thread) (c : ThreadId) :
    (t.push (.anchor c)).anchors = t.anchors ++ [c] := by
  simp [push, anchors, Entry.anchor?]

/-- An entry adds a message if it is one. -/
theorem messages_push (t : Thread) (entry : Entry) :
    (t.push entry).messages = t.messages ++ entry.message?.toList := by
  rw [messages, push, List.filterMap_append]
  cases hm : entry.message? <;> simp [hm, messages]

/-- Where a thread stands in the tree, with the sessions that are anchored in it. -/
def place (t : Thread) : ThreadId × Option ThreadId × Nat × List ThreadId :=
  (t.id, t.parent, t.depth, t.anchors)

/-- Closing moves nothing. -/
@[simp] theorem place_close (t : Thread) (s : ThreadStatus) (c : Option String) (now : Time) :
    (t.close s c now).place = t.place := rfl

/-- A message moves nothing. -/
theorem place_push_message (t : Thread) (role : Role) (content : String) (tags : List String) :
    (t.push (.message role content tags)).place = t.place := by
  rw [place, push_anchors_message]
  rfl

namespace Grows

/-- A thread that stays as it is has grown. -/
theorem refl (t : Thread) : t.Grows t :=
  { id := rfl, parent := rfl, depth := rfl, label := rfl, budget := rfl
    entries := List.prefix_refl _
    closed := fun _ => rfl
    kept := fun _ => rfl
    aborted := fun ha hb => by
      rw [ha] at hb
      cases hb }

/-- What grows twice has grown. -/
theorem trans {t t' t'' : Thread} (h : t.Grows t') (h' : t'.Grows t'') : t.Grows t'' where
  id := h'.id.trans h.id
  parent := h'.parent.trans h.parent
  depth := h'.depth.trans h.depth
  label := h'.label.trans h.label
  budget := h'.budget.trans h.budget
  entries := h.entries.trans h'.entries
  -- closed before the first part, it is still closed before the second
  closed := fun hne => by
    have hs := h.closed hne
    rw [h'.closed (hs ▸ hne), hs]
  kept := fun hs => by
    by_cases hmid : t'.status = t.status
    · rw [h'.kept (hs.trans hmid.symm), h.kept hmid]
    · -- the thread was closed in between, so it cannot have its old status again
      have hact : t.status = .active := by
        by_contra hne
        exact hmid (h.closed hne)
      have hmid' : t'.status ≠ .active := fun ha => hmid (ha.trans hact.symm)
      exact absurd ((h'.closed hmid').symm.trans hs) hmid
  -- the abort was in the second part, or the thread was closed by the first and has been kept since
  aborted := fun ha hb => by
    by_cases hmid : t'.status = .active
    · exact h'.aborted hmid hb
    · have hs := h'.closed hmid
      rw [h'.kept hs, h.aborted ha (hs.symm.trans hb)]

/-- A thread grows by an entry, whatever its status. -/
theorem push (t : Thread) (e : Entry) : t.Grows (t.push e) :=
  { refl t with entries := List.prefix_append _ _ }

/-- A thread that is open may be aborted, and gets no chronicle by it. -/
theorem abort (t : Thread) (ha : t.status = .active) (now : Time) :
    t.Grows (t.close .aborted none now) :=
  { refl t with
    closed := fun hne => absurd ha hne
    kept := fun hs => by
      rw [ha] at hs
      cases hs
    aborted := fun _ _ => rfl }

/-- A thread that is open may be completed, with any chronicle. -/
theorem complete (t : Thread) (ha : t.status = .active) (chronicle : Option String) (now : Time) :
    t.Grows (t.close .completed chronicle now) :=
  { refl t with
    closed := fun hne => absurd ha hne
    kept := fun hs => by
      rw [ha] at hs
      cases hs
    aborted := fun _ hs => by cases hs }

end Grows

end Thread

namespace Hierarchy

/-- What a hierarchy keeps from one state to a later one. -/
structure Grows (h h' : Hierarchy) : Prop where
  root : h'.root = h.root
  limits : h'.limits = h.limits
  /-- The threads that are there stay, and grow. -/
  thread : ∀ {id t}, h.get? id = some t → ∃ t', h'.get? id = some t' ∧ t.Grows t'
  /-- A thread that has come meanwhile and is aborted has no chronicle. -/
  born : ∀ {id t'}, h.get? id = none → h'.get? id = some t' → t'.status = .aborted →
    t'.chronicle = none

namespace Grows

/-- A hierarchy that stays as it is has grown. -/
theorem refl (h : Hierarchy) : h.Grows h where
  root := rfl
  limits := rfl
  thread := fun hg => ⟨_, hg, .refl _⟩
  born := fun hnone hsome _ => by
    rw [hnone] at hsome
    cases hsome

/-- A hierarchy that grows twice has grown. -/
theorem trans {h h' h'' : Hierarchy} (a : h.Grows h') (b : h'.Grows h'') : h.Grows h'' where
  root := b.root.trans a.root
  limits := b.limits.trans a.limits
  thread := fun hg => by
    rcases a.thread hg with ⟨t', hg', hgrow⟩
    rcases b.thread hg' with ⟨t'', hg'', hgrow'⟩
    exact ⟨t'', hg'', hgrow.trans hgrow'⟩
  born := fun {id t''} hnone hg'' hs => by
    cases hg' : h'.get? id with
    | none => exact b.born hg' hg'' hs
    | some t' =>
      rcases b.thread hg' with ⟨u, hu, hgrow⟩
      rw [hg''] at hu
      cases hu
      -- a thread that was born in between was aborted either then or later
      by_cases hact : t'.status = .active
      · exact hgrow.aborted hact hs
      · have hst := hgrow.closed hact
        rw [hgrow.kept hst, a.born hnone hg' (hst.symm.trans hs)]

/-- No thread goes away. -/
theorem isSome {h h' : Hierarchy} (a : h.Grows h') {id : ThreadId} (hs : h.get? id ≠ none) :
    h'.get? id ≠ none := by
  rcases Option.ne_none_iff_exists'.1 hs with ⟨t, hg⟩
  rcases a.thread hg with ⟨t', hg', _⟩
  rw [hg']
  exact Option.some_ne_none _

/-- Seen backwards: a thread that was there has grown into what is there now. -/
theorem thread' {h h' : Hierarchy} (a : h.Grows h') {id : ThreadId} {t t' : Thread}
    (hg : h.get? id = some t) (hg' : h'.get? id = some t') : t.Grows t' := by
  rcases a.thread hg with ⟨u, hu, hgrow⟩
  rw [hg'] at hu
  cases hu
  exact hgrow

/-- A thread keeps its lineage. -/
theorem lineage_eq {h h' : Hierarchy} (a : h.Grows h') (ht : IsTree h) (ht' : IsTree h')
    {id : ThreadId} (hs : h.get? id ≠ none) : h'.lineage id = h.lineage id := by
  refine ht.lineage_eq_of_parents ht' a.root (fun hg => ?_) hs
  rcases a.thread hg with ⟨t', hg', hgrow⟩
  exact ⟨t', hg', hgrow.parent⟩

end Grows

/-! ## Changes that enter nothing -/

/-- After the change the same threads are there, and each stands where it stood. -/
structure SamePlaces (h h' : Hierarchy) : Prop where
  root : h'.root = h.root
  place : ∀ id, (h'.get? id).map Thread.place = (h.get? id).map Thread.place

namespace SamePlaces

variable {h h' : Hierarchy}

/-- Seen backwards: a thread of the new state stands where one of the old state stood. -/
theorem some_right (hs : SamePlaces h h') {id : ThreadId} {t' : Thread}
    (hg' : h'.get? id = some t') : ∃ t, h.get? id = some t ∧ t.place = t'.place := by
  have hplace := hs.place id
  rw [hg', Option.map_some] at hplace
  exact Option.map_eq_some_iff.1 hplace.symm

/-- The change can be undone without moving a thread. -/
theorem symm (hs : SamePlaces h h') : SamePlaces h' h :=
  ⟨hs.root.symm, fun id => (hs.place id).symm⟩

/-- A thread of the old state is there afterwards, and stands where it stood. -/
theorem some_left (hs : SamePlaces h h') {id : ThreadId} {t : Thread}
    (hg : h.get? id = some t) : ∃ t', h'.get? id = some t' ∧ t'.place = t.place :=
  hs.symm.some_right hg

/-- A tree whose threads keep their places is one. -/
theorem isTree (hs : SamePlaces h h') (ht : IsTree h) : IsTree h' where
  id_eq := fun hg' => by
    rcases hs.some_right hg' with ⟨t, hg, hplace⟩
    exact (congrArg Prod.fst hplace).symm.trans (ht.id_eq hg)
  root_mem := by
    rcases ht.root_mem with ⟨r, hr, hp, hd⟩
    rcases hs.some_left hr with ⟨r', hr', hplace⟩
    refine ⟨r', hs.root ▸ hr', ?_, ?_⟩
    · exact (congrArg (fun x => x.2.1) hplace).trans hp
    · exact (congrArg (fun x => x.2.2.1) hplace).trans hd
  eq_root := fun hg' hp => by
    rcases hs.some_right hg' with ⟨t, hg, hplace⟩
    rw [hs.root]
    exact ht.eq_root hg ((congrArg (fun x => x.2.1) hplace).trans hp)
  -- the parent is found in the old state, where the thread has the same one, and stands there in the new one
  parent_mem := fun {id t' p} hg' hp => by
    rcases hs.some_right hg' with ⟨t, hg, hplace⟩
    rcases ht.parent_mem hg ((congrArg (fun x => x.2.1) hplace).trans hp) with ⟨q, hq, hd⟩
    rcases hs.some_left hq with ⟨q', hq', hplaceq⟩
    have hdt : t.depth = t'.depth := congrArg (fun x => x.2.2.1) hplace
    have hdq : q'.depth = q.depth := congrArg (fun x => x.2.2.1) hplaceq
    exact ⟨q', hq', by omega⟩

/-- A thread whose ancestors keep their places keeps its lineage, and what is not there has none. -/
theorem lineage_eq (hs : SamePlaces h h') (ht : IsTree h) (id : ThreadId) :
    h'.lineage id = h.lineage id := by
  cases hg : h.get? id with
  | none =>
    -- a thread that is not there has not come by the change
    have hg' : h'.get? id = none := by
      have hplace := hs.place id
      rwa [hg, Option.map_none, Option.map_eq_none_iff] at hplace
    rw [lineage, lineage, IsTree.pathTo_eq_nil hg, IsTree.pathTo_eq_nil hg']
  | some t =>
    refine ht.lineage_eq_of_parents (hs.isTree ht) hs.root (fun hg => ?_) (by simp [hg])
    rcases hs.some_left hg with ⟨t', hg', hplace⟩
    exact ⟨t', hg', congrArg (fun x => x.2.1) hplace⟩

end SamePlaces

/-- The change applies a function to every thread, with its name, and makes a thread active. -/
structure Maps (h h' : Hierarchy) (active : ThreadId) (g : ThreadId → Thread → Thread) : Prop where
  root : h'.root = h.root
  limits : h'.limits = h.limits
  active : h'.active = active
  get? : ∀ id, h'.get? id = (h.get? id).map (g id)

namespace Maps

variable {h h' : Hierarchy} {active : ThreadId} {g : ThreadId → Thread → Thread}

/-- No thread moves if the function moves none. -/
theorem samePlaces (hm : Maps h h' active g) (hg : ∀ id t, (g id t).place = t.place) :
    SamePlaces h h' where
  root := hm.root
  place := fun id => by
    rw [hm.get?, Option.map_map]
    congr 1
    funext t
    exact hg id t

/-- A hierarchy grows if the function lets every thread grow that is there. -/
theorem grows (hm : Maps h h' active g)
    (hg : ∀ {id t}, h.get? id = some t → t.Grows (g id t)) : Grows h h' where
  root := hm.root
  limits := hm.limits
  thread := fun {id t} hs => ⟨g id t, by rw [hm.get?, hs]; rfl, hg hs⟩
  born := fun hnone hsome _ => by
    rw [hm.get?, hnone] at hsome
    cases hsome

/-- Seen backwards: every thread is the image of one that was there. -/
theorem some_right (hm : Maps h h' active g) {id : ThreadId} {t' : Thread}
    (hg' : h'.get? id = some t') : ∃ t, h.get? id = some t ∧ g id t = t' := by
  rw [hm.get?] at hg'
  exact Option.map_eq_some_iff.1 hg'

end Maps

end Hierarchy

end Playbook
