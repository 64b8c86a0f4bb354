import Playbook.Proofs.Hierarchy.Reachable

/-! # Changes within one session

A change is confined to a session when only the threads at or beneath it change and new ones lie beneath it.
For each operation there is one statement that says when it is confined.

Main statements: `Move.confined` says that a call which says nothing outside the active thread is confined to
an open session, as long as the parent of that session stays open; `Numbered.run_confined` says so of all
calls from the entry of a session until its parent is active again.
-/

namespace Playbook.Hierarchy

/-- Only threads at or beneath this one change, and new ones lie beneath it. -/
structure Confined (child : ThreadId) (h h' : Hierarchy) : Prop where
  kept : ∀ {id}, h.get? id ≠ none → child ∉ h.lineage id → h'.get? id = h.get? id
  beneath : ∀ {id}, h.get? id = none → h'.get? id ≠ none → child ∈ h'.lineage id

variable {h h' h'' : Hierarchy} {child : ThreadId}

theorem Confined.refl (child : ThreadId) (h : Hierarchy) : Confined child h h where
  kept := fun _ _ => rfl
  beneath := fun hnone hne => absurd hnone hne

theorem Confined.trans (ht : IsTree h) (ht' : IsTree h') (ht'' : IsTree h'') (hgrows : h.Grows h')
    (hgrows' : h'.Grows h'') (a : Confined child h h') (b : Confined child h' h'') :
    Confined child h h'' where
  kept := by
    intro id hne hout
    have hout' : child ∉ h'.lineage id := by
      rw [hgrows.lineage_eq ht ht' hne]
      exact hout
    rw [b.kept (hgrows.isSome hne) hout', a.kept hne hout]
  beneath := by
    intro id hnone hne
    by_cases hmid : h'.get? id = none
    · exact b.beneath hmid hne
    · rw [hgrows'.lineage_eq ht' ht'' hmid]
      exact a.beneath hnone hmid

/-- A thread that is open was open before. -/
theorem Grows.open_before (hgrows : h.Grows h') {id : ThreadId} (hne : h.get? id ≠ none) {t' : Thread}
    (hg' : h'.get? id = some t') (hs : t'.status = .active) :
    ∃ t, h.get? id = some t ∧ t.status = .active := by
  rcases Option.ne_none_iff_exists'.1 hne with ⟨t, hg⟩
  refine ⟨t, hg, ?_⟩
  by_contra hclosed
  have hkept := (hgrows.thread' hg hg').closed hclosed
  exact hclosed (hkept ▸ hs)

/-! ## The operations -/

/-- A change that applies a function to every thread is confined if the function changes nothing else. -/
theorem Maps.confined {active : ThreadId} {g : ThreadId → Thread → Thread} (hm : Maps h h' active g)
    (hg : ∀ {id t}, h.get? id = some t → child ∉ h.lineage id → g id t = t) : Confined child h h' where
  kept := by
    intro id hne hout
    rcases Option.ne_none_iff_exists'.1 hne with ⟨t, ht⟩
    rw [hm.get?, ht, Option.map_some, hg ht hout]
  beneath := by
    intro id hnone hne
    rw [hm.get?, hnone] at hne
    exact absurd rfl hne

/-- What is on another way than a thread that is open is not the active thread. -/
theorem ne_active (hopen : child ∈ h.lineage h.active) {id : ThreadId} (hout : child ∉ h.lineage id) :
    id ≠ h.active := by
  rintro rfl
  exact hout hopen

/-- What is said in the active thread is said within every open session. -/
theorem record_confined (hopen : child ∈ h.lineage h.active) {role : Role} {content : String}
    {tags : List String} (hr : h.record role content tags = .ok h') : Confined child h h' := by
  refine (recordIn_maps hr).confined ?_
  intro id t _ hout
  exact if_neg (ne_active hopen hout)

theorem leave_confined (hopen : child ∈ h.lineage h.active) {id : ThreadId} {chronicle : Option String}
    {now : Time} (hl : h.leave id chronicle now = .ok h') : Confined child h h' := by
  rcases leave_maps hl with ⟨hid, _, _, _, _, hm⟩
  refine hm.confined ?_
  intro x t _ hout
  exact if_neg (hid ▸ ne_active hopen hout)

/-- The one new thread lies beneath the active one. -/
theorem OpenPath.enter_confined (ho : OpenPath h) (hopen : child ∈ h.lineage h.active) {id : ThreadId}
    {p : Thread} {ratio : Double} {label : Option String} {now : Time} (hfresh : h.get? id = none)
    (he : Enters h h' id p (Thread.nested id p ratio label now)) : Confined child h h' where
  kept := by
    intro x hne hout
    have hold : x ≠ id := fun heq => hne (heq ▸ hfresh)
    rw [he.get?_old hold]
    rcases Option.ne_none_iff_exists'.1 hne with ⟨t, ht⟩
    rw [ht, Option.map_some, if_neg (ne_active hopen hout)]
  beneath := by
    intro x hnone hne
    -- only the new thread was not there before
    have hnew : x = id := by
      by_contra hold
      rw [he.get?_old hold, hnone] at hne
      exact hne rfl
    have hline := ho.enter_lineage hfresh he
    rw [he.active, ← hnew] at hline
    rw [hline]
    exact List.mem_append_left _ hopen

/-- Aborting is confined where nothing is aborted outside. -/
theorem abort_confined {id : ThreadId} {now : Time} {ids : List ThreadId}
    (ha : h.abort id now = .ok (h', ids))
    (hstays : ∀ {x}, child ∉ h.lineage x → x ∉ h.openWithin id) : Confined child h h' := by
  rcases abort_ok ha with ⟨t, p, hg, hp⟩
  rcases abort_eq hg hp now with ⟨h'', hok, hm⟩
  rw [ha] at hok
  cases hok
  refine hm.confined ?_
  intro x u _ hout
  exact if_neg (hstays hout)

/-- A thread that is open after an abort was not among those that were aborted. -/
theorem not_mem_openWithin_of_open {id x : ThreadId} {now : Time} {ids : List ThreadId}
    (ha : h.abort id now = .ok (h', ids)) {t' : Thread} (hg' : h'.get? x = some t')
    (hopen : t'.status = .active) : x ∉ h.openWithin id := by
  intro hin
  rcases abort_ok ha with ⟨t, p, hg, hp⟩
  rcases abort_eq hg hp now with ⟨h'', hok, hm⟩
  rw [ha] at hok
  cases hok
  rcases hm.some_right hg' with ⟨u, _, hu⟩
  rw [if_pos hin] at hu
  rw [← hu] at hopen
  cases hopen

namespace OpenPath

/-- Of two open threads one is above the other. -/
theorem mem_lineage_of_open (ho : OpenPath h) (hopen : child ∈ h.lineage h.active) {x : ThreadId}
    (hx : x ∈ h.lineage h.active) (hout : child ∉ h.lineage x) : x ∈ h.lineage child := by
  obtain ⟨t, hg⟩ := ho.get?_of_mem_lineage hopen
  obtain ⟨u, hu⟩ := ho.get?_of_mem_lineage hx
  rcases List.prefix_or_prefix_of_prefix (ho.lineage_isPrefix hx) (ho.lineage_isPrefix hopen) with
    hle | hle
  · exact hle.subset (ho.self_mem_lineage hu)
  · exact absurd (hle.subset (ho.self_mem_lineage hg)) hout

/-- Where an open thread is not aborted, nothing above it is. -/
theorem not_mem_openWithin (ho : OpenPath h) {id x : ThreadId} {t : Thread}
    (hchild : h.get? child = some t) (hopen : t.status = .active) (hstays : child ∉ h.openWithin id)
    (hx : x ∈ h.lineage child) : x ∉ h.openWithin id := by
  intro hmem
  rcases (mem_openWithin ho.toIsTree).1 hmem with ⟨_, _, _, hid⟩
  exact hstays ((mem_openWithin ho.toIsTree).2
    ⟨t, hchild, hopen, (ho.lineage_isPrefix hx).subset hid⟩)

/-- An abort that keeps a thread open is confined to it. -/
theorem abort_confined_self (ho : OpenPath h) (hopen : child ∈ h.lineage h.active) {id : ThreadId}
    {now : Time} {ids : List ThreadId} (ha : h.abort id now = .ok (h', ids)) {t' : Thread}
    (hg' : h'.get? child = some t') (hopen' : t'.status = .active) : Confined child h h' := by
  obtain ⟨t, hg⟩ := ho.get?_of_mem_lineage hopen
  refine abort_confined ha fun {x} hout hin => ?_
  rcases (mem_openWithin ho.toIsTree).1 hin with ⟨u, hu, hs, _⟩
  exact ho.not_mem_openWithin hg ((ho.active_iff hg).2 hopen)
    (not_mem_openWithin_of_open ha hg' hopen')
    (ho.mem_lineage_of_open hopen ((ho.active_iff hu).1 hs) hout) hin

/-- An abort that keeps the parent of an open session open is confined to the session. -/
theorem abort_confined_child (ho : OpenPath h) (hopen : child ∈ h.lineage h.active) {p : ThreadId}
    {t : Thread} (hg : h.get? child = some t) (hp : t.parent = some p) {id : ThreadId} {now : Time}
    {ids : List ThreadId} (ha : h.abort id now = .ok (h', ids)) {q' : Thread}
    (hq' : h'.get? p = some q') (hopen' : q'.status = .active) : Confined child h h' := by
  obtain ⟨q, hq, _⟩ := ho.parent_mem hg hp
  have hline := ho.lineage_child hg hp
  have hpopen : p ∈ h.lineage h.active := by
    refine ho.lineage_subset hopen ?_
    rw [hline]
    exact List.mem_append_left _ (ho.self_mem_lineage hq)
  refine abort_confined ha fun {x} hout hin => ?_
  rcases (mem_openWithin ho.toIsTree).1 hin with ⟨u, hu, hs, _⟩
  have habove := ho.mem_lineage_of_open hopen ((ho.active_iff hu).1 hs) hout
  -- the thread is not the session, so it is above the parent
  rw [hline, List.mem_append, List.mem_singleton] at habove
  have hne : x ≠ child := by
    rintro rfl
    exact hout (ho.self_mem_lineage hu)
  exact ho.not_mem_openWithin hq ((ho.active_iff hq).2 hpopen)
    (not_mem_openWithin_of_open ha hq' hopen') (habove.resolve_right hne) hin

end OpenPath

/-! ## Calls -/

/-- Whether a call says nothing outside the active thread. -/
def Move.inActive : Move → Bool
  | .recordIn .. => false
  | _ => true

/-- A call that says nothing outside the active thread is confined to an open session, as long as the parent
of the session stays open. -/
theorem Move.confined (ho : OpenPath h) {next : ThreadId} (hfresh : h.get? next = none) {m : Move}
    (hm : m.inActive = true) (ha : m.answer h next = .ok h') (hopen : child ∈ h.lineage h.active) {p : ThreadId}
    {t : Thread} (hg : h.get? child = some t) (hp : t.parent = some p) {q' : Thread}
    (hq' : h'.get? p = some q') (hopen' : q'.status = .active) : Confined child h h' := by
  have habort : ∀ {id now ids}, h.abort id now = .ok (h', ids) → Confined child h h' :=
    fun ha => ho.abort_confined_child hopen hg hp ha hq' hopen'
  -- a move that aborts does so beneath the child, since the parent is still open behind it
  cases m with
  | enter ratio label now =>
    rcases enter_ok ho.toIsTree ho.active_ne_none ha with ⟨_, he⟩
    exact ho.enter_confined hopen hfresh he
  | leave id chronicle now => exact leave_confined hopen ha
  | abort id now =>
    rcases fst_eq_ok ha with ⟨ids, hr⟩
    exact habort hr
  | abortAbove mark now =>
    rcases fst_eq_ok ha with ⟨ids, hr⟩
    rcases abortAbove_cases hr with ⟨rfl, _⟩ | ⟨_, hr⟩
    · exact .refl child _
    · exact habort hr
  | abortRun mark now =>
    rcases fst_eq_ok ha with ⟨ids, hr⟩
    rcases abortRun_cases hr with ⟨rfl, _⟩ | ⟨_, hr⟩
    · exact .refl child _
    · exact habort hr
  | record role content tags => exact record_confined hopen ha
  | recordIn id role content tags => cases hm

/-- After changes within a session its parent is active, or the session is still open. -/
theorem Confined.child_open (hc : Confined child h h') (ho : OpenPath h) (ho' : OpenPath h')
    (hgrows : h.Grows h') (hactive : h.active = child) {p : ThreadId} {t : Thread}
    (hg : h.get? child = some t) (hp : t.parent = some p) (hopen : p ∈ h'.lineage h'.active)
    (haway : h'.active ≠ p) : child ∈ h'.lineage h'.active := by
  obtain ⟨id, u, hu, hup, hid, _⟩ := ho'.exists_child hopen haway
  by_contra hclosed
  have hne : id ≠ child := fun heq => hclosed (heq ▸ hid)
  obtain ⟨q, hq, _⟩ := ho.parent_mem hg hp
  -- another open child of the parent lies outside, so it was there and open when the session began
  have hout' : child ∉ h'.lineage id := by
    obtain ⟨t', hg', hgrow⟩ := hgrows.thread hg
    have habove := ho'.not_mem_lineage_parent hg' (hgrow.parent.trans hp)
    rw [ho'.lineage_child hu hup, List.mem_append, List.mem_singleton]
    rintro (hmem | heq)
    · exact habove hmem
    · exact hne heq.symm
  have hold : h.get? id ≠ none := by
    intro hnone
    exact hout' (hc.beneath hnone (by simp [hu]))
  have hout : child ∉ h.lineage id := by
    rw [← hgrows.lineage_eq ho.toIsTree ho'.toIsTree hold]
    exact hout'
  have hu₀ : h.get? id = some u := (hc.kept hold hout).symm.trans hu
  have hmem := (ho.active_iff hu₀).1 ((ho'.active_iff hu).2 hid)
  rw [hactive, ho.lineage_child hg hp, List.mem_append, List.mem_singleton] at hmem
  exact ho.not_mem_lineage_parent hu₀ hup (hmem.resolve_right hne)

namespace Numbered

variable {supply : Nat → ThreadId} {s : Numbered}

/-- The hierarchy after the first `k` calls. -/
def along (supply : Nat → ThreadId) (s : Numbered) (moves : List Move) (k : Nat) : Hierarchy :=
  (s.run supply (moves.take k)).hierarchy

/-- The hierarchy after one call more. -/
theorem along_succ (s : Numbered) {moves : List Move} {k : Nat} (hk : k < moves.length) :
    s.along supply moves (k + 1) =
      ((s.run supply (moves.take k)).apply supply moves[k]).hierarchy := by
  rw [along, List.take_succ_eq_append_getElem hk, run, List.foldl_append]
  rfl

theorem along_sound (hinj : Function.Injective supply) (hs : Sound (s.names supply) s.hierarchy)
    (moves : List Move) (k : Nat) :
    OpenPath (s.along supply moves k) ∧ Grows s.hierarchy (s.along supply moves k) := by
  rcases hs.run hinj (moves.take k) with ⟨hmid, hgrows⟩
  exact ⟨hmid.openPath, hgrows⟩

/-- What is open at the end of some calls was open all the time. -/
theorem open_along (hinj : Function.Injective supply) (hs : Sound (s.names supply) s.hierarchy)
    {moves : List Move} {id : ThreadId} (hne : s.hierarchy.get? id ≠ none)
    (hopen : id ∈ (s.along supply moves moves.length).lineage (s.along supply moves moves.length).active)
    (k : Nat) : id ∈ (s.along supply moves k).lineage (s.along supply moves k).active := by
  rcases hs.run hinj (moves.take k) with ⟨hmid, hgrows⟩
  -- the moves are divided at `k`, for what is open at the end and was there at `k` was open then
  have hsplit : s.along supply moves moves.length =
      ((s.run supply (moves.take k)).run supply (moves.drop k)).hierarchy := by
    rw [along, List.take_length]
    conv_lhs => rw [← List.take_append_drop k moves]
    rw [run, List.foldl_append]
    rfl
  rcases hmid.run hinj (moves.drop k) with ⟨hend, hgrows'⟩
  rw [hsplit] at hopen
  obtain ⟨t', hg'⟩ := hend.openPath.get?_of_mem_lineage hopen
  have hact' := (hend.openPath.active_iff hg').2 hopen
  obtain ⟨t, hg, hact⟩ := hgrows'.open_before (hgrows.isSome hne) hg' hact'
  exact (hmid.openPath.active_iff hg).1 hact

/-- One call more is confined to an open session, as long as the parent of the session stays open. -/
theorem apply_confined (hinj : Function.Injective supply) (hs : Sound (s.names supply) s.hierarchy)
    {m : Move} (hm : m.inActive = true) (hopen : child ∈ s.hierarchy.lineage s.hierarchy.active)
    {p : ThreadId} {t : Thread} (hg : s.hierarchy.get? child = some t) (hp : t.parent = some p)
    (hparent : p ∈ (s.apply supply m).hierarchy.lineage (s.apply supply m).hierarchy.active) :
    Confined child s.hierarchy (s.apply supply m).hierarchy := by
  have hnext := (hs.apply hinj m).1.openPath
  obtain ⟨q, hq⟩ := hnext.get?_of_mem_lineage hparent
  have hact := (hnext.active_iff hq).2 hparent
  unfold apply at hq ⊢
  split at hq
  case h_1 h' ha =>
    exact Move.confined hs.openPath (hs.fresh (s.next_not_mem hinj)) hm ha hopen hg hp hq hact
  case h_2 => exact .refl child _

/-- From the entry of a session until its parent is active again the session is open, and all calls are
confined to it. -/
theorem run_confined (hinj : Function.Injective supply) (hs : Sound (s.names supply) s.hierarchy)
    (hactive : s.hierarchy.active = child) {p : ThreadId} {t : Thread}
    (hg : s.hierarchy.get? child = some t) (hp : t.parent = some p) {moves : List Move}
    (hmoves : ∀ m ∈ moves, m.inActive = true)
    (haway : ∀ k < moves.length, (s.along supply moves k).active ≠ p)
    (hback : (s.along supply moves moves.length).active = p) {k : Nat} (hk : k ≤ moves.length) :
    Confined child s.hierarchy (s.along supply moves k) ∧
      (k < moves.length → child ∈ (s.along supply moves k).lineage (s.along supply moves k).active) := by
  -- the parent is active at the end, so it is open all the way
  have hopen : ∀ k, p ∈ (s.along supply moves k).lineage (s.along supply moves k).active := by
    obtain ⟨q, hq, _⟩ := hs.openPath.parent_mem hg hp
    refine open_along hinj hs (by simp [hq]) ?_
    have hend := (along_sound hinj hs moves moves.length).1
    obtain ⟨a, ha⟩ := hend.active_mem
    rw [hback] at ha ⊢
    exact hend.self_mem_lineage ha
  -- while the parent is open and not active, the child is open beneath it
  have hchild : ∀ k < moves.length, Confined child s.hierarchy (s.along supply moves k) →
      child ∈ (s.along supply moves k).lineage (s.along supply moves k).active := by
    intro k hk hc
    rcases along_sound hinj hs moves k with ⟨hmid, hgrows⟩
    exact hc.child_open hs.openPath hmid hgrows hactive hg hp (hopen k) (haway k hk)
  suffices hconf : ∀ k ≤ moves.length, Confined child s.hierarchy (s.along supply moves k) from
    ⟨hconf k hk, fun hlt => hchild k hlt (hconf k hk)⟩
  intro k hk
  induction k with
  | zero => exact .refl child _
  | succ k ih =>
    have hfirst := ih (Nat.le_of_lt hk)
    rcases hs.run hinj (moves.take k) with ⟨hmid, hgrows⟩
    rcases hmid.apply hinj moves[k] with ⟨hnext, hgrows'⟩
    obtain ⟨t', hg', hgrow⟩ := hgrows.thread hg
    have hparent := hopen (k + 1)
    rw [along_succ s hk] at hparent ⊢
    have hlast := apply_confined hinj hmid (hmoves _ (List.getElem_mem hk)) (hchild k hk hfirst) hg'
      (hgrow.parent.trans hp) hparent
    exact hfirst.trans hs.openPath.toIsTree hmid.openPath.toIsTree hnext.openPath.toIsTree hgrows hgrows'
      hlast

end Numbered

end Playbook.Hierarchy
