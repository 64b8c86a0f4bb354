import Playbook.Proofs.Hierarchy.Operations

/-! # Open sessions are the path to the active one

In a hierarchy that is used through its operations the threads that are open are those from the primary
session down to the active thread. For each operation there is one statement that says what it does: which
hierarchies it accepts, what becomes of every thread, and which thread is active then.

Main statements: `OpenPath.enter`, `OpenPath.recordIn`, `OpenPath.leave`, `OpenPath.abort`,
`OpenPath.abortAbove` and `OpenPath.abortRun`.
-/

namespace Playbook.Hierarchy

/-- A tree whose open threads are those from the primary session down to the active thread. -/
structure OpenPath (h : Hierarchy) : Prop extends IsTree h where
  active_mem : ∃ t, h.get? h.active = some t
  active_iff : ∀ {id t}, h.get? id = some t → (t.status = .active ↔ id ∈ h.lineage h.active)

variable {h h' : Hierarchy}

namespace OpenPath

/-- Closing changes keep a tree; the open threads have to be those above the new active one. -/
theorem of_samePlaces (ho : OpenPath h) (hs : SamePlaces h h')
    (hmem : h.get? h'.active ≠ none)
    (hiff : ∀ {id t'}, h'.get? id = some t' →
      (t'.status = .active ↔ id ∈ h.lineage h'.active)) : OpenPath h' where
  toIsTree := hs.isTree ho.toIsTree
  active_mem := by
    rcases Option.ne_none_iff_exists'.1 hmem with ⟨t, hg⟩
    rcases hs.some_left hg with ⟨t', hg', _⟩
    exact ⟨t', hg'⟩
  active_iff := fun hg' => by
    rw [hs.lineage_eq ho.toIsTree]
    exact hiff hg'

/-- The active thread is open. -/
theorem status_active (ho : OpenPath h) {t : Thread} (hg : h.get? h.active = some t) :
    t.status = .active :=
  (ho.active_iff hg).2 (ho.self_mem_lineage hg)

/-- The primary session is open. -/
theorem root_open (ho : OpenPath h) : h.root ∈ h.lineage h.active := by
  rcases ho.active_mem with ⟨t, hg⟩
  exact ho.root_mem_lineage hg

/-- Above an open thread every thread is open. -/
theorem lineage_subset (ho : OpenPath h) {id : ThreadId} (hid : id ∈ h.lineage h.active) :
    h.lineage id ⊆ h.lineage h.active :=
  (ho.lineage_isPrefix hid).subset

/-- Below an open thread the path goes on with a child of it. -/
theorem exists_child (ho : OpenPath h) {mark : ThreadId} (hm : mark ∈ h.lineage h.active)
    (hne : h.active ≠ mark) :
    ∃ id t, h.get? id = some t ∧ t.parent = some mark ∧ id ∈ h.lineage h.active ∧
      ∃ rest, h.pathTo h.active = h.pathTo mark ++ t :: rest := by
  rcases ho.active_mem with ⟨a, ha⟩
  exact ho.exists_child_towards ha hm hne

end OpenPath

/-- A change that enters nothing, and after which the open threads are again those on the way to the active
one. -/
structure Steady (h h' : Hierarchy) : Prop where
  openPath : OpenPath h'
  grows : Grows h h'
  places : SamePlaces h h'

theorem Steady.refl (ho : OpenPath h) : Steady h h where
  openPath := ho
  grows := .refl h
  places := ⟨rfl, fun _ => rfl⟩

namespace OpenPath

/-! ## Every operation keeps it -/

/-- A closing change keeps places, so the tree stays; what has to be seen is which threads are open. -/
theorem steady_of_maps (ho : OpenPath h) {active : ThreadId} {g : ThreadId → Thread → Thread}
    (hm : Maps h h' active g) (hplace : ∀ id t, (g id t).place = t.place)
    (hgrow : ∀ {id t}, h.get? id = some t → t.Grows (g id t)) (hmem : h.get? active ≠ none)
    (hiff : ∀ {id t}, h.get? id = some t → ((g id t).status = .active ↔ id ∈ h.lineage active)) :
    Steady h h' where
  openPath := by
    refine ho.of_samePlaces (hm.samePlaces hplace) (hm.active ▸ hmem) fun hg' => ?_
    rcases hm.some_right hg' with ⟨t, hg, rfl⟩
    rw [hm.active]
    exact hiff hg
  grows := hm.grows hgrow
  places := hm.samePlaces hplace

theorem active_ne_none (ho : OpenPath h) : h.get? h.active ≠ none := by
  rcases ho.active_mem with ⟨t, hg⟩
  rw [hg]
  exact Option.some_ne_none _

theorem recordIn (ho : OpenPath h) {id : ThreadId} {role : Role} {content : String}
    {tags : List String} (hr : h.recordIn id role content tags = .ok h') : Steady h h' := by
  refine ho.steady_of_maps (recordIn_maps hr) (fun x t => ?_) (fun {x t} _ => ?_)
    ho.active_ne_none fun {x t} hg => ?_
  · split
    · exact t.place_push_message role content tags
    · rfl
  · split
    · exact .push t _
    · exact .refl t
  · rw [← ho.active_iff hg]
    split <;> rfl

theorem leave (ho : OpenPath h) {id : ThreadId} {chronicle : Option String} {now : Time}
    (hl : h.leave id chronicle now = .ok h') : Steady h h' := by
  rcases leave_maps hl with ⟨rfl, t, p, hg, hp, hm⟩
  rcases ho.parent_mem hg hp with ⟨q, hq, _⟩
  refine ho.steady_of_maps hm (fun x t => ?_) (fun {x u} hu => ?_) (by simp [hq])
    fun {x u} hu => ?_
  · split <;> rfl
  · by_cases hx : x = h.active
    · rw [if_pos hx]
      exact .complete u (ho.status_active (hx ▸ hu)) chronicle now
    · rw [if_neg hx]
      exact .refl u
  · by_cases hx : x = h.active
    · -- the session that is left is not on the way to its parent
      have hnot := ho.not_mem_lineage_parent hg hp
      rw [if_pos hx, hx]
      exact ⟨fun hs => (by cases hs), fun hmem => absurd hmem hnot⟩
    · -- what else was open is above it
      rw [if_neg hx, ho.active_iff hu, ho.lineage_child hg hp, List.mem_append,
        List.mem_singleton]
      exact ⟨fun hmem => hmem.resolve_right hx, Or.inl⟩

/-- Of the open threads those beneath an open one, itself included, are the end of the path. -/
theorem mem_lineage_parent_iff (ho : OpenPath h) {id p x : ThreadId} {t : Thread}
    (hg : h.get? id = some t) (hp : t.parent = some p) (hid : id ∈ h.lineage h.active)
    (hx : x ∈ h.lineage h.active) : x ∈ h.lineage p ↔ id ∉ h.lineage x := by
  have hnot := ho.not_mem_lineage_parent hg hp
  constructor
  · intro hmem hin
    exact hnot ((ho.lineage_isPrefix hmem).subset hin)
  · intro hin
    -- both lineages begin that of the active thread, so one begins the other
    rcases List.prefix_or_prefix_of_prefix (ho.lineage_isPrefix hx) (ho.lineage_isPrefix hid)
      with hle | hle
    · obtain ⟨u, hu⟩ := ho.get?_of_mem_lineage hx
      have hself := hle.subset (ho.self_mem_lineage hu)
      rw [ho.lineage_child hg hp, List.mem_append, List.mem_singleton] at hself
      refine hself.resolve_right fun heq => hin ?_
      rw [heq]
      exact ho.self_mem_lineage hg
    · exact absurd (hle.subset (ho.self_mem_lineage hg)) hin

/-- A session that is not open has nothing open beneath it. -/
theorem openWithin_eq_nil (ho : OpenPath h) {id : ThreadId} (hid : id ∉ h.lineage h.active) :
    h.openWithin id = [] := by
  rw [List.eq_nil_iff_forall_not_mem]
  intro x hx
  rcases (mem_openWithin ho.toIsTree).1 hx with ⟨t, hg, hs, hmem⟩
  exact hid (ho.lineage_subset ((ho.active_iff hg).1 hs) hmem)

/-- The open threads at or beneath one are those that are aborted with it. -/
theorem mem_openWithin_iff (ho : OpenPath h) {id x : ThreadId} {u : Thread}
    (hu : h.get? x = some u) :
    x ∈ h.openWithin id ↔ u.status = .active ∧ id ∈ h.lineage x := by
  rw [mem_openWithin ho.toIsTree]
  constructor
  · rintro ⟨v, hv, hs, hmem⟩
    rw [hu] at hv
    cases hv
    exact ⟨hs, hmem⟩
  · rintro ⟨hs, hmem⟩
    exact ⟨u, hu, hs, hmem⟩

theorem abort (ho : OpenPath h) {id : ThreadId} {now : Time} {ids : List ThreadId}
    (ha : h.abort id now = .ok (h', ids)) : Steady h h' := by
  rcases abort_ok ha with ⟨t, p, hg, hp⟩
  rcases ho.parent_mem hg hp with ⟨q, hq, _⟩
  rcases abort_eq hg hp now with ⟨h'', hok, hm⟩
  rw [hok] at ha
  cases ha
  refine ho.steady_of_maps hm (fun x t => ?_) (fun {x u} hu => ?_) ?_ fun {x u} hu => ?_
  · split <;> rfl
  · by_cases hx : x ∈ h.openWithin id
    · rw [if_pos hx]
      exact .abort u ((ho.mem_openWithin_iff hu).1 hx).1 now
    · rw [if_neg hx]
      exact .refl u
  · split
    · simp [hq]
    · exact ho.active_ne_none
  · -- if the session is open the path is cut above it, and otherwise nothing changes
    by_cases hid : h.isWithin h.active id = true
    · have hid' := isWithin_iff.1 hid
      rw [if_pos hid]
      by_cases hx : x ∈ h.openWithin id
      · rcases (ho.mem_openWithin_iff hu).1 hx with ⟨hs, hmem⟩
        have hline := (ho.mem_lineage_parent_iff hg hp hid' ((ho.active_iff hu).1 hs)).not
        rw [if_pos hx]
        exact ⟨fun hc => (by cases hc), fun hc => absurd hc (hline.2 (not_not_intro hmem))⟩
      · rw [if_neg hx]
        constructor
        · intro hs
          refine (ho.mem_lineage_parent_iff hg hp hid' ((ho.active_iff hu).1 hs)).2 ?_
          intro hmem
          exact hx ((ho.mem_openWithin_iff hu).2 ⟨hs, hmem⟩)
        · intro hmem
          refine (ho.active_iff hu).2 (ho.lineage_subset hid' ?_)
          rw [ho.lineage_child hg hp]
          exact List.mem_append_left _ hmem
    · rw [if_neg hid, ho.openWithin_eq_nil (fun hc => hid (isWithin_iff.2 hc)), if_neg (by simp)]
      exact ho.active_iff hu

theorem abortAbove (ho : OpenPath h) {mark : ThreadId} {now : Time} {ids : List ThreadId}
    (ha : h.abortAbove mark now = .ok (h', ids)) : Steady h h' := by
  rcases abortAbove_cases ha with ⟨rfl, _⟩ | ⟨id, habort⟩
  · exact .refl ho
  · exact ho.abort habort

theorem abortRun (ho : OpenPath h) {mark : ThreadId} {now : Time} {ids : List ThreadId}
    (ha : h.abortRun mark now = .ok (h', ids)) : Steady h h' := by
  rcases abortRun_cases ha with ⟨rfl, _⟩ | ⟨id, habort⟩
  · exact .refl ho
  · exact ho.abort habort

/-! ### Entering -/

/-- With a new session the hierarchy is a tree again. -/
theorem enter_isTree (ho : OpenPath h) {id : ThreadId} {p : Thread} {ratio : Double}
    {label : Option String} {now : Time} (hfresh : h.get? id = none)
    (he : Enters h h' id p (Thread.nested id p ratio label now)) : IsTree h' := by
  have hne : ∀ {x t}, h.get? x = some t → x ≠ id := by
    rintro x t hx rfl
    rw [hfresh] at hx
    cases hx
  have hpid : p.id = h.active := ho.id_eq he.parent
  have hold : ∀ {x t}, h.get? x = some t →
      ∃ t', h'.get? x = some t' ∧ t'.id = t.id ∧ t'.parent = t.parent ∧ t'.depth = t.depth := by
    intro x t hx
    refine ⟨_, by rw [he.get?_old (hne hx), hx, Option.map_some], ?_⟩
    split <;> exact ⟨rfl, rfl, rfl⟩
  -- seen from both sides, the old threads keep their places
  have hback : ∀ {x t'}, h'.get? x = some t' → x ≠ id →
      ∃ t, h.get? x = some t ∧ t'.id = t.id ∧ t'.parent = t.parent ∧ t'.depth = t.depth := by
    intro x t' hx hxid
    rw [he.get?_old hxid] at hx
    rcases Option.map_eq_some_iff.1 hx with ⟨t, ht, rfl⟩
    refine ⟨t, ht, ?_⟩
    split <;> exact ⟨rfl, rfl, rfl⟩
  refine { id_eq := fun {x t'} hx => ?_, root_mem := ?_, eq_root := fun {x t'} hx hp => ?_,
           parent_mem := fun {x t' q} hx hp => ?_ }
  · by_cases hxid : x = id
    · rw [hxid, he.get?_new] at hx
      cases hx
      exact hxid.symm
    · rcases hback hx hxid with ⟨t, ht, hid, _⟩
      exact hid.trans (ho.id_eq ht)
  · rcases ho.root_mem with ⟨r, hr, hp, hd⟩
    rcases hold hr with ⟨r', hr', _, hp', hd'⟩
    exact ⟨r', he.root ▸ hr', hp'.trans hp, hd'.trans hd⟩
  · by_cases hxid : x = id
    · rw [hxid, he.get?_new] at hx
      cases hx
      cases hp
    · rcases hback hx hxid with ⟨t, ht, _, hpar, _⟩
      rw [he.root]
      exact ho.eq_root ht (hpar.symm.trans hp)
  · by_cases hxid : x = id
    · -- the new session stands one below the thread that was active
      rw [hxid, he.get?_new] at hx
      cases hx
      cases hp
      rcases hold he.parent with ⟨p', hp', _, _, hd⟩
      refine ⟨p', by rw [hpid]; exact hp', ?_⟩
      rw [hd]
      rfl
    · rcases hback hx hxid with ⟨t, ht, _, hpar, hdep⟩
      rcases ho.parent_mem ht (hpar.symm.trans hp) with ⟨u, hu, hd⟩
      rcases hold hu with ⟨u', hu', _, _, hd'⟩
      exact ⟨u', hu', by omega⟩

/-- The way to a new session is the way to its parent with the session behind it. -/
theorem enter_lineage (ho : OpenPath h) {id : ThreadId} {p : Thread} {ratio : Double}
    {label : Option String} {now : Time} (hfresh : h.get? id = none)
    (he : Enters h h' id p (Thread.nested id p ratio label now)) :
    h'.lineage h'.active = h.lineage h.active ++ [id] := by
  have ht' := ho.enter_isTree hfresh he
  have hpar : (Thread.nested id p ratio label now).parent = some h.active :=
    congrArg some (ho.id_eq he.parent)
  have hact : h.get? h.active ≠ none := by
    rw [he.parent]
    exact Option.some_ne_none _
  rw [he.active, ht'.lineage_child he.get?_new hpar,
    (he.grows hfresh).lineage_eq ho.toIsTree ht' hact]

theorem enter (ho : OpenPath h) {id : ThreadId} {p : Thread} {ratio : Double}
    {label : Option String} {now : Time} (hfresh : h.get? id = none)
    (he : Enters h h' id p (Thread.nested id p ratio label now)) :
    OpenPath h' ∧ Grows h h' := by
  have ht' := ho.enter_isTree hfresh he
  refine ⟨{ ht' with active_mem := ?_, active_iff := fun {x t'} hx => ?_ },
    he.grows hfresh⟩
  · exact ⟨_, he.active ▸ he.get?_new⟩
  · rw [ho.enter_lineage hfresh he, List.mem_append, List.mem_singleton]
    -- the new thread is added to the path, and the others keep their status
    by_cases hxid : x = id
    · rw [hxid, he.get?_new] at hx
      cases hx
      exact ⟨fun _ => Or.inr hxid, fun _ => rfl⟩
    · rw [he.get?_old hxid] at hx
      rcases Option.map_eq_some_iff.1 hx with ⟨t, ht, rfl⟩
      have hst : (if x = h.active then t.push (.anchor id) else t).status = t.status := by
        split <;> rfl
      rw [hst, ho.active_iff ht]
      exact ⟨Or.inl, fun hmem => hmem.resolve_right hxid⟩

/-! ## Which thread is active then -/

/-- Aborting a closed session changes nothing. -/
theorem abort_of_closed (ho : OpenPath h) {id p : ThreadId} {t : Thread}
    (hg : h.get? id = some t) (hp : t.parent = some p) (hid : id ∉ h.lineage h.active)
    (now : Time) : h.abort id now = .ok (h, []) := by
  have hnot : ¬ h.isWithin h.active id = true := fun hc => hid (isWithin_iff.1 hc)
  simp only [Hierarchy.abort, require_eq_ok hg, hp, bind, Except.bind, ho.openWithin_eq_nil hid,
    if_neg hnot]
  rfl

/-- The path to a thread ends with it and meets its name nowhere else. -/
theorem pathTo_eq_concat (ht : IsTree h) {mark : ThreadId} {m : Thread}
    (hg : h.get? mark = some m) :
    ∃ init, h.pathTo mark = init ++ [m] ∧ ∀ x ∈ init, x.id ≠ mark := by
  cases hp : m.parent with
  | none =>
    have hroot := ht.eq_root hg hp
    subst hroot
    exact ⟨[], by rw [ht.pathTo_root hg]; rfl, by simp⟩
  | some p =>
    refine ⟨h.pathTo p, ht.pathTo_child hg hp, ?_⟩
    intro x hx heq
    exact ht.not_mem_lineage_parent hg hp (List.mem_map.2 ⟨x, hx, heq⟩)

/-- Aborting above an open thread makes it active. -/
theorem abortAbove_of_open (ho : OpenPath h) {mark : ThreadId}
    (hm : mark ∈ h.lineage h.active) (now : Time) :
    ∃ h' ids, h.abortAbove mark now = .ok (h', ids) ∧ h'.active = mark := by
  by_cases hact : h.active = mark
  · exact ⟨h, [], by rw [Hierarchy.abortAbove, if_pos hact], hact⟩
  · rcases ho.exists_child hm hact with ⟨id, t, hg, hp, hid, rest, hpath⟩
    obtain ⟨m, hgm⟩ := ho.get?_of_mem_lineage hm
    rcases pathTo_eq_concat ho.toIsTree hgm with ⟨init, hinit, hne⟩
    rcases Hierarchy.abort_of_open hg hp hid now with ⟨h', hok, hactive⟩
    refine ⟨h', h.openWithin id, ?_, hactive⟩
    -- the session to abort is found right behind the mark on the path
    have hdrop : (h.pathTo h.active).dropWhile (fun x => x.id != mark) = m :: t :: rest := by
      rw [hpath, hinit, List.append_assoc, List.dropWhile_append_of_pos]
      · simp [ho.id_eq hgm]
      · intro x hx
        simpa using hne x hx
    simp only [Hierarchy.abortAbove, if_neg hact, hdrop, ho.id_eq hg]
    exact hok

/-- After a failed or cancelled run the active thread is the primary session or a proper ancestor of the
thread in which the run started. -/
theorem abortRun_active (ho : OpenPath h) {mark : ThreadId} (hmark : h.get? mark ≠ none)
    (now : Time) : ∃ h' ids, h.abortRun mark now = .ok (h', ids) ∧
      h'.active ∈ h.lineage mark ∧ (h'.active = h.root ∨ h'.active ≠ mark) := by
  rcases Option.ne_none_iff_exists'.1 hmark with ⟨m, hgm⟩
  simp only [Hierarchy.abortRun]
  split
  · -- nothing on the way to the mark is open but the primary session
    rename_i hroot
    rcases ho.abortAbove_of_open ho.root_open now with ⟨h', ids, hok, hact⟩
    refine ⟨h', ids, by rw [hroot]; exact hok, ?_, Or.inl hact⟩
    rw [hact]
    exact ho.root_mem_lineage hgm
  · rename_i hne
    cases hfind : (h.pathTo mark).reverse.find? Thread.isActive with
    | none => simp [hfind] at hne
    | some t =>
      simp only [hfind, Option.map_some, Option.getD_some] at hne ⊢
      have hmem : t ∈ h.pathTo mark := List.mem_reverse.1 (List.mem_of_find?_eq_some hfind)
      have hg := ho.get?_of_mem_pathTo hmem
      have hs : t.status = .active := by
        have := List.find?_some hfind
        simpa [Thread.isActive] using this
      cases hp : t.parent with
      | none => exact absurd (ho.eq_root hg hp) hne
      | some p =>
        rcases Hierarchy.abort_of_open hg hp ((ho.active_iff hg).1 hs) now with ⟨h', hok, hact⟩
        -- the innermost open thread on the way to the mark is aborted, so its parent is active then
        have hin : t.id ∈ h.lineage mark := List.mem_map.2 ⟨t, hmem, rfl⟩
        have hsub := (ho.lineage_isPrefix hin).subset
        rcases ho.parent_mem hg hp with ⟨q, hq, _⟩
        refine ⟨h', _, hok, ?_, Or.inr ?_⟩
        · rw [hact]
          apply hsub
          rw [ho.lineage_child hg hp]
          exact List.mem_append_left _ (ho.self_mem_lineage hq)
        · rw [hact]
          rintro rfl
          exact ho.not_mem_lineage_parent hg hp hin

end OpenPath

end Playbook.Hierarchy
