import Playbook.Proofs.Hierarchy.Reachable
import Playbook.Run.World

/-! # Walks and the sessions they have opened

A walk acts in the active thread, and the sessions that it has opened and not yet left are the innermost
threads on the way to it. They rest on a thread that was there before the walk: on the one in which the walk
started, or, at top level, on any one above it that is still open.

Main statements: `Stands.enter`, `Stands.pop`, `Stands.sink` and `Stands.join` say how entering and leaving
sessions and the end of a called walk keep this; `Stands.later` says that nothing else matters.
-/

namespace Playbook

open Hierarchy

/-- The sessions that a walk has opened and not yet left, innermost first. -/
def Frame.opened (f : Frame) : List ThreadId := f.sessions.filterMap id

@[simp] theorem Frame.opened_start (region : Region) (thread : ThreadId) :
    (Frame.start region thread).opened = [] := rfl

/-- The hierarchy in which a walk started, and the threads on which its sessions may rest. -/
structure Ground where
  before : Hierarchy
  base : ThreadId → Prop

namespace Ground

/-- The ground of a called walk: its sessions rest on the thread in which it started. -/
def under (before : Hierarchy) (thread : ThreadId) : Ground := ⟨before, fun b => b = thread⟩

/-- The ground of a walk at top level, which may also leave sessions that were open before it. -/
def free (before : Hierarchy) : Ground := ⟨before, fun _ => True⟩

end Ground

/-- A walk acts in the active thread, and its open sessions are the end of the way to it. -/
structure Stands (g : Ground) (h : Hierarchy) (f : Frame) : Prop where
  openPath : OpenPath h
  grows : g.before.Grows h
  thread : f.thread = h.active
  resting : ∃ b, g.base b ∧ g.before.get? b ≠ none ∧
    h.lineage h.active = h.lineage b ++ f.opened.reverse
  opened_new : ∀ id ∈ f.opened, g.before.get? id = none

/-- A thread on which the sessions of the walk may rest is still open. -/
def Rests (g : Ground) (h : Hierarchy) : Prop := ∃ b, g.base b ∧ b ∈ h.lineage h.active

variable {g : Ground} {h h' : Hierarchy} {f f' : Frame}

theorem rests_under {thread : ThreadId} :
    Rests (.under g.before thread) h ↔ thread ∈ h.lineage h.active := by
  constructor
  · rintro ⟨b, rfl, hmem⟩
    exact hmem
  · intro hmem
    exact ⟨thread, rfl, hmem⟩

namespace Stands

theorem active_ne_none (hs : Stands g h f) : h.get? h.active ≠ none := hs.openPath.active_ne_none

theorem rests (hs : Stands g h f) : Rests g h := by
  rcases hs.resting with ⟨b, hb, hbefore, hline⟩
  rcases Option.ne_none_iff_exists'.1 (hs.grows.isSome hbefore) with ⟨t, hg⟩
  refine ⟨b, hb, ?_⟩
  rw [hline]
  exact List.mem_append_left _ (hs.openPath.self_mem_lineage hg)

/-- A called walk starts on its own thread. -/
theorem start (ho : OpenPath h) {thread : ThreadId} (ht : h.active = thread) (region : Region) :
    Stands (.under h thread) h (.start region thread) where
  openPath := ho
  grows := .refl h
  thread := ht.symm
  resting := ⟨thread, rfl, ht ▸ ho.active_ne_none, by rw [ht]; simp⟩
  opened_new := fun id hid => absurd hid List.not_mem_nil

/-- A walk at top level starts in the active thread. -/
theorem startFree (ho : OpenPath h) (region : Region) :
    Stands (.free h) h (.start region h.active) where
  openPath := ho
  grows := .refl h
  thread := rfl
  resting := ⟨h.active, trivial, ho.active_ne_none, by simp⟩
  opened_new := fun id hid => absurd hid List.not_mem_nil

/-- As long as the same thread is active and the same sessions are open, nothing else matters. -/
theorem later (hs : Stands g h f) (ho : OpenPath h') (hgrows : h.Grows h')
    (hactive : h'.active = h.active) (hthread : f'.thread = f.thread)
    (hopened : f'.opened = f.opened) : Stands g h' f' where
  openPath := ho
  grows := hs.grows.trans hgrows
  thread := by rw [hthread, hs.thread, hactive]
  resting := by
    rcases hs.resting with ⟨b, hb, hbefore, hline⟩
    refine ⟨b, hb, hbefore, ?_⟩
    have ht := hs.openPath.toIsTree
    -- both lineages are those from before
    rw [hactive, hgrows.lineage_eq ht ho.toIsTree hs.active_ne_none, hline,
      hgrows.lineage_eq ht ho.toIsTree (hs.grows.isSome hbefore), hopened]
  opened_new := by
    rw [hopened]
    exact hs.opened_new

/-- Only the frame changes, but not its sessions. -/
theorem congr (hs : Stands g h f) (hthread : f'.thread = f.thread)
    (hopened : f'.opened = f.opened) : Stands g h f' :=
  hs.later hs.openPath (.refl h) rfl hthread hopened

/-- A session is entered on top of the others. -/
theorem enter (hs : Stands g h f) {id : ThreadId} {p : Thread} {ratio : Double}
    {label : Option String} {now : Time} (hfresh : h.get? id = none)
    (he : Enters h h' id p (Thread.nested id p ratio label now)) :
    Stands g h' { f with sessions := some id :: f.sessions, thread := id } := by
  rcases OpenPath.enter hs.openPath hfresh he with ⟨ho', hgrows⟩
  rcases hs.resting with ⟨b, hb, hbefore, hline⟩
  refine ⟨ho', hs.grows.trans hgrows, he.active.symm, ⟨b, hb, hbefore, ?_⟩, ?_⟩
  · have hkept := hgrows.lineage_eq hs.openPath.toIsTree ho'.toIsTree (hs.grows.isSome hbefore)
    rw [hs.openPath.enter_lineage hfresh he, hline, hkept]
    simp [Frame.opened]
  · intro x hx
    rcases List.mem_cons.1 (show x ∈ id :: f.opened from hx) with rfl | hx
    · by_contra hne
      exact hs.grows.isSome hne hfresh
    · exact hs.opened_new x hx

/-- The innermost of the open sessions is the active thread, and without it the walk stands on its
parent. -/
theorem pop (hs : Stands g h f) {id : ThreadId} {rest : List (Option ThreadId)}
    (hf : f.sessions = some id :: rest) :
    id = h.active ∧ ∃ t p, h.get? id = some t ∧ t.parent = some p ∧
      ∀ h' f', Steady h h' → h'.active = p → f'.thread = p → f'.sessions = rest →
        Stands g h' f' := by
  rcases hs.resting with ⟨b, hb, hbefore, hline⟩
  rcases Option.ne_none_iff_exists'.1 (hs.grows.isSome hbefore) with ⟨u, hu⟩
  rcases hs.openPath.active_mem with ⟨t, hg⟩
  have ht : IsTree h := hs.openPath.toIsTree
  have hopened : f.opened = id :: rest.filterMap (fun o => o) := by
    rw [Frame.opened, hf]
    rfl
  rw [hopened, List.reverse_cons, ← List.append_assoc] at hline
  cases hp : t.parent with
  | none =>
    -- the primary session alone has a lineage of one name
    rw [ht.eq_root hg hp, ht.lineage_root] at hline
    have hlen := congrArg List.length hline
    have hpos := List.length_pos_of_mem (ht.self_mem_lineage hu)
    simp at hlen
    omega
  | some p =>
    rw [ht.lineage_child hg hp] at hline
    -- the last name on the way is the active thread, and the innermost session of the walk
    rcases List.append_inj' hline rfl with ⟨hinit, hlast⟩
    have hid : id = h.active := (List.cons.inj hlast).1.symm
    refine ⟨hid, t, p, hid ▸ hg, hp, ?_⟩
    intro h' f' hc hact hthread hsess
    refine ⟨hc.openPath, hs.grows.trans hc.grows, hthread.trans hact.symm,
      ⟨b, hb, hbefore, ?_⟩, fun x hx => hs.opened_new x ?_⟩
    · rw [hact, hc.places.lineage_eq ht, hinit, hc.places.lineage_eq ht, Frame.opened, hsess]
      rfl
    · rw [Frame.opened, hsess] at hx
      rw [hopened]
      exact List.mem_cons_of_mem _ hx

/-- At top level a walk without sessions may leave the active one, and then stands on its parent. -/
theorem sink (hs : Stands g h f) (hbefore : IsTree g.before) (hall : ∀ b, g.base b)
    (hf : f.opened = []) {t : Thread} {p : ThreadId} (hg : h.get? h.active = some t)
    (hp : t.parent = some p) (hc : Steady h h') (hact : h'.active = p) (hthread : f'.thread = p)
    (hopened : f'.opened = f.opened) : Stands g h' f' := by
  rcases hs.resting with ⟨b, _, hb, hline⟩
  have ht : IsTree h := hs.openPath.toIsTree
  rcases Option.ne_none_iff_exists'.1 (hs.grows.isSome hb) with ⟨u, hu⟩
  rw [hf, List.reverse_nil, List.append_nil] at hline
  -- the sessions rest on the active thread itself, which was there before
  have hbase : b = h.active :=
    ht.eq_of_mem_lineage (hline ▸ ht.self_mem_lineage hu) (hline ▸ ht.self_mem_lineage hg)
  rcases Option.ne_none_iff_exists'.1 (hbase ▸ hb) with ⟨v, hv⟩
  have hparent : v.parent = some p := (hs.grows.thread' hv hg).parent.symm.trans hp
  rcases hbefore.parent_mem hv hparent with ⟨q, hq, _⟩
  refine ⟨hc.openPath, hs.grows.trans hc.grows, hthread.trans hact.symm,
    ⟨p, hall p, by rw [hq]; exact Option.some_ne_none _, ?_⟩, ?_⟩
  · rw [hact, hopened, hf]
    simp
  · rw [hopened]
    exact hs.opened_new

/-- As long as its own thread is open, so is the ground of a walk. -/
theorem rests_later (hs : Stands g h f) (ho : OpenPath h') (hgrows : h.Grows h')
    (hopen : f.thread ∈ h'.lineage h'.active) : Rests g h' := by
  rcases hs.rests with ⟨b, hb, hmem⟩
  refine ⟨b, hb, (ho.lineage_isPrefix hopen).subset ?_⟩
  rw [hs.thread, hgrows.lineage_eq hs.openPath.toIsTree ho.toIsTree hs.active_ne_none]
  exact hmem

/-- When a walk that was called in the same thread has ended, its open sessions are handed over. -/
theorem join (hs : Stands g h f) {fd : Frame} (hd : Stands (.under h f.thread) h' fd)
    (hthread : f'.thread = fd.thread) (hsess : f'.sessions = fd.sessions ++ f.sessions) :
    Stands g h' f' := by
  rcases hs.resting with ⟨b, hb, hbefore, hline⟩
  rcases hd.resting with ⟨x, hx, _, hline'⟩
  have ht : IsTree h := hs.openPath.toIsTree
  have hx : x = h.active := hx.trans hs.thread
  subst hx
  -- the called walk rests on the active thread, so its sessions follow those of the caller
  have hopened : f'.opened = fd.opened ++ f.opened := by
    rw [Frame.opened, hsess, List.filterMap_append]
    rfl
  refine ⟨hd.openPath, hs.grows.trans hd.grows, hthread.trans hd.thread,
    ⟨b, hb, hbefore, ?_⟩, ?_⟩
  · have hkept : ∀ {id}, h.get? id ≠ none → h'.lineage id = h.lineage id := fun hne =>
      hd.grows.lineage_eq ht hd.openPath.toIsTree hne
    rw [hline', hkept hs.active_ne_none, hline, hkept (hs.grows.isSome hbefore), hopened,
      List.reverse_append, List.append_assoc]
  · intro id hid
    rw [hopened, List.mem_append] at hid
    rcases hid with hid | hid
    · by_contra hne
      exact hs.grows.isSome hne (hd.opened_new id hid)
    · exact hs.opened_new id hid

end Stands

/-! ## Aborting back to a thread -/

/-- Where a session is open, or its parent is active, aborting it makes its parent active. -/
theorem Hierarchy.OpenPath.abort_back (ho : OpenPath h) {child p : ThreadId} {t : Thread}
    (hg : h.get? child = some t) (hp : t.parent = some p)
    (hopen : child ∈ h.lineage h.active ∨ h.active = p) (now : Time) :
    ∃ h' ids, h.abort child now = .ok (h', ids) ∧ Steady h h' ∧ h'.active = p := by
  rcases hopen with hmem | hactive
  · rcases abort_of_open hg hp hmem now with ⟨h', hok, hact⟩
    exact ⟨h', _, hok, ho.abort hok, hact⟩
  · have hnot : child ∉ h.lineage h.active := hactive ▸ ho.not_mem_lineage_parent hg hp
    exact ⟨h, [], ho.abort_of_closed hg hp hnot now, .refl ho, hactive⟩

end Playbook
