import Mathlib.Data.List.Chain
import Playbook.Proofs.Hierarchy.OpenPath

/-! # Well-formed hierarchies

The anchors in a thread name the sessions that were entered under it, and only a session that was left has a
chronicle. Paths run from the primary session to a thread, each thread being the parent of the next.

Main statements: `WellFormed.count_anchored` says that every nested session is anchored once and nothing
else is, and `IsTree.isChain_pathTo` and `IsTree.head?_getLast?_pathTo` say how paths run.
-/

namespace Playbook.Hierarchy

/-! ## Anchors -/

/-- The parent of a thread that is there. -/
def parent? (h : Hierarchy) (id : ThreadId) : Option ThreadId := (h.get? id).bind Thread.parent

/-- The anchors in all threads. -/
def anchored (h : Hierarchy) : List ThreadId := h.threads.values.flatMap Thread.anchors

/-- A hierarchy whose open threads are those on the way to the active one, whose anchors are its parents
read backwards, and where only completed threads have chronicles. -/
structure WellFormed (h : Hierarchy) : Prop extends OpenPath h where
  anchors_nodup : ∀ {id t}, h.get? id = some t → t.anchors.Nodup
  mem_anchors : ∀ {id t c}, h.get? id = some t → (c ∈ t.anchors ↔ h.parent? c = some id)
  completed : ∀ {id t}, h.get? id = some t → t.chronicle ≠ none → t.status = .completed

variable {h h' : Hierarchy}

theorem parent?_eq_some {id p : ThreadId} :
    h.parent? id = some p ↔ ∃ t, h.get? id = some t ∧ t.parent = some p :=
  Option.bind_eq_some_iff

theorem SamePlaces.parent?_eq (hs : SamePlaces h h') (id : ThreadId) :
    h'.parent? id = h.parent? id := by
  have hplace := congrArg (fun o => o.bind (fun p => p.2.1)) (hs.place id)
  cases hg : h.get? id <;> cases hg' : h'.get? id <;>
    simp_all [parent?, Thread.place]

theorem SamePlaces.ne_none_iff (hs : SamePlaces h h') (id : ThreadId) :
    h'.get? id ≠ none ↔ h.get? id ≠ none := by
  refine not_congr ?_
  rw [← Option.map_eq_none_iff (f := Thread.place), hs.place, Option.map_eq_none_iff]

/-! ## Every session is anchored once -/

namespace WellFormed

theorem anchored_nodup (hw : WellFormed h) : h.anchored.Nodup := by
  refine List.nodup_flatMap.2 ⟨?_, ?_⟩
  · intro t ht
    rcases Dict.mem_values_iff.1 ht with ⟨id, hg⟩
    exact hw.anchors_nodup hg
  · refine List.pairwise_map.2 (h.threads.sorted.imp_of_mem ?_)
    rintro ⟨a, t⟩ ⟨b, u⟩ ha hb hlt c hc hc'
    -- a name that is anchored in two threads would have two parents
    have hpa := (hw.mem_anchors (Dict.mem_entries_iff.1 ha)).1 hc
    have hpb := (hw.mem_anchors (Dict.mem_entries_iff.1 hb)).1 hc'
    rw [hpa] at hpb
    cases hpb
    exact String.lt_irrefl _ hlt

theorem mem_anchored (hw : WellFormed h) {c : ThreadId} :
    c ∈ h.anchored ↔ (h.parent? c).isSome = true := by
  rw [anchored, List.mem_flatMap]
  constructor
  · rintro ⟨t, ht, hc⟩
    rcases Dict.mem_values_iff.1 ht with ⟨id, hg⟩
    rw [(hw.mem_anchors hg).1 hc]
    rfl
  · intro hs
    rcases Option.isSome_iff_exists.1 hs with ⟨p, hp⟩
    obtain ⟨t, hg, htp⟩ := parent?_eq_some.1 hp
    rcases hw.parent_mem hg htp with ⟨q, hq, _⟩
    exact ⟨q, Dict.mem_values_iff.2 ⟨p, hq⟩, (hw.mem_anchors hq).2 hp⟩

/-- A nested session is anchored once, and nothing else is. -/
theorem count_anchored (hw : WellFormed h) (c : ThreadId) :
    h.anchored.count c = if (h.parent? c).isSome then 1 else 0 := by
  by_cases hc : c ∈ h.anchored
  · rw [List.count_eq_one_of_mem hw.anchored_nodup hc, if_pos (hw.mem_anchored.1 hc)]
  · rw [List.count_eq_zero_of_not_mem hc, if_neg fun hs => hc (hw.mem_anchored.2 hs)]

end WellFormed

/-! ## Paths -/

/-- Along a path every thread is the parent of the next. -/
theorem IsTree.isChain_pathTo (ht : IsTree h) (id : ThreadId) :
    (h.pathTo id).IsChain (fun a b => b.parent = some a.id) := by
  cases hg : h.get? id with
  | none =>
    rw [IsTree.pathTo_eq_nil hg]
    exact .nil
  | some t =>
    -- the path to a child is the path to its parent with the child behind it
    refine ht.induction_down (P := fun id => (h.pathTo id).IsChain _) ?_ ?_ hg
    · rcases ht.root_mem with ⟨r, hr, _⟩
      rw [ht.pathTo_root hr]
      exact .singleton _
    · intro id t p hg hp ih
      rcases ht.parent_mem hg hp with ⟨q, hq, _⟩
      rcases OpenPath.pathTo_eq_concat ht hq with ⟨init, hinit, _⟩
      rw [ht.pathTo_child hg hp]
      refine ih.append (.singleton t) ?_
      intro x hx y hy
      rw [hinit, List.getLast?_concat, Option.mem_some_iff] at hx
      rw [List.head?_cons, Option.mem_some_iff] at hy
      rw [← hx, ← hy, hp, ht.id_eq hq]

/-- A path begins with the primary session and ends with the thread that it leads to. -/
theorem IsTree.head?_getLast?_pathTo (ht : IsTree h) {id : ThreadId} {t : Thread}
    (hg : h.get? id = some t) :
    (h.pathTo id).head? = h.get? h.root ∧ (h.pathTo id).getLast? = some t := by
  refine ⟨?_, ?_⟩
  · refine ht.induction_down (P := fun id => (h.pathTo id).head? = h.get? h.root) ?_ ?_ hg
    · rcases ht.root_mem with ⟨r, hr, _⟩
      rw [ht.pathTo_root hr, hr]
      rfl
    · intro id t p hg hp ih
      rcases ht.root_mem with ⟨r, hr, _⟩
      rw [ht.pathTo_child hg hp, List.head?_append, ih, hr]
      rfl
  · rcases OpenPath.pathTo_eq_concat ht hg with ⟨init, hinit, _⟩
    rw [hinit, List.getLast?_concat]

/-- A thread is on a path when its name is on the lineage. -/
theorem IsTree.mem_pathTo_iff (ht : IsTree h) {id x : ThreadId} {t : Thread}
    (hg : h.get? x = some t) : t ∈ h.pathTo id ↔ x ∈ h.lineage id := by
  rw [lineage, List.mem_map]
  constructor
  · intro hmem
    exact ⟨t, hmem, ht.id_eq hg⟩
  · rintro ⟨u, hu, rfl⟩
    rw [ht.get?_of_mem_pathTo hu] at hg
    cases hg
    exact hu

end Playbook.Hierarchy
