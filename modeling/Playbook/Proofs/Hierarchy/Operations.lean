import Playbook.Proofs.Hierarchy.Growth

/-! # What the operations on hierarchies do

For each operation, which hierarchies it accepts and what becomes of every thread. Recording, leaving and
aborting apply a function to every thread; entering adds one thread and an anchor.

Main statements: `recordIn_maps`, `leave_maps`, `abort_eq`, `abortAbove_cases`, `abortRun_cases` and
`enter_cases`.
-/

namespace Playbook.Hierarchy

variable {h h' : Hierarchy}

/-! ## Recording and leaving -/

theorem require_eq_ok {id : ThreadId} {t : Thread} (hg : h.get? id = some t) :
    h.require id = .ok t := by
  simp [require, hg]

theorem require_eq_error {id : ThreadId} (hg : h.get? id = none) :
    h.require id = .error (.threadNotFound id) := by
  simp [require, hg]

/-- A message can be recorded in every thread, open or not. -/
theorem exists_recordIn {id : ThreadId} (hg : h.get? id ≠ none) (role : Role) (content : String)
    (tags : List String) : ∃ h', h.recordIn id role content tags = .ok h' := by
  rcases Option.ne_none_iff_exists'.1 hg with ⟨t, hg⟩
  simp [recordIn, require_eq_ok hg, bind, Except.bind]

theorem recordIn_maps {id : ThreadId} {role : Role} {content : String} {tags : List String}
    (hr : h.recordIn id role content tags = .ok h') :
    Maps h h' h.active
      (fun x t => if x = id then t.push (.message role content tags) else t) := by
  cases hg : h.get? id with
  | none => simp [recordIn, require_eq_error hg, bind, Except.bind] at hr
  | some t =>
    simp only [recordIn, require_eq_ok hg, bind, Except.bind] at hr
    cases hr
    refine ⟨rfl, rfl, rfl, ?_⟩
    intro x
    simp only [get?, Dict.get?_insert] at hg ⊢
    by_cases hx : x = id
    · simp [hx, hg]
    · simp [hx]

/-- The active session can be left when it is not the primary one. -/
theorem exists_leave {t : Thread} {p : ThreadId} (hg : h.get? h.active = some t)
    (hp : t.parent = some p) (chronicle : Option String) (now : Time) :
    ∃ h', h.leave h.active chronicle now = .ok h' := by
  simp [leave, require_eq_ok hg, hp, bind, Except.bind]

theorem leave_maps {id : ThreadId} {chronicle : Option String} {now : Time}
    (hl : h.leave id chronicle now = .ok h') :
    id = h.active ∧ ∃ t p, h.get? id = some t ∧ t.parent = some p ∧
      Maps h h' p (fun x t => if x = id then t.close .completed chronicle now else t) := by
  -- only the active session can be left, and the root has no parent to go back to
  by_cases hid : id = h.active
  · refine ⟨hid, ?_⟩
    cases hg : h.get? id with
    | none => simp [leave, hid, require_eq_error (hid ▸ hg), bind, Except.bind] at hl
    | some t =>
      cases hp : t.parent with
      | none => simp [leave, hid, require_eq_ok (hid ▸ hg), hp, bind, Except.bind] at hl
      | some p =>
        simp only [leave, hid, bne_self_eq_false, Bool.false_eq_true, if_false,
          require_eq_ok (hid ▸ hg), hp, bind, Except.bind] at hl
        cases hl
        refine ⟨t, p, rfl, hp, rfl, rfl, rfl, ?_⟩
        intro x
        simp only [get?, Dict.get?_insert, ← hid] at hg ⊢
        by_cases hx : x = id
        · simp [hx, hg]
        · simp [hx]
  · simp [leave, hid] at hl

/-! ## Aborting -/

/-- Closing a thread as aborted twice is the same as once. -/
theorem get?_closeAborted (ids : List ThreadId) (now : Time) (threads : Dict Thread)
    (x : ThreadId) : (closeAborted threads ids now).get? x =
      (threads.get? x).map (fun t => if x ∈ ids then t.close .aborted none now else t) := by
  induction ids generalizing threads with
  | nil => simp [closeAborted]
  | cons id ids ih =>
    have hstep : closeAborted threads (id :: ids) now =
        closeAborted (threads.modify id (fun t => t.close .aborted none now)) ids now := rfl
    rw [hstep, ih, Dict.get?_modify]
    cases hg : threads.get? x with
    | none => simp
    | some t =>
      by_cases hx : x = id
      · -- a name that comes twice is closed twice, with the same result
        by_cases hin : x ∈ ids
        · simp [hx, hx ▸ hin, Thread.close]
        · simp [hx, hx ▸ hin]
      · by_cases hin : x ∈ ids
        · simp [hx, hin]
        · simp [hx, hin]

/-- Every nested session can be aborted, open or not. -/
theorem abort_eq {id p : ThreadId} {t : Thread} (hg : h.get? id = some t)
    (hp : t.parent = some p) (now : Time) :
    ∃ h', h.abort id now = .ok (h', h.openWithin id) ∧
      Maps h h' (if h.isWithin h.active id then p else h.active)
        (fun x t => if x ∈ h.openWithin id then t.close .aborted none now else t) := by
  refine ⟨{ h with
    active := if h.isWithin h.active id then p else h.active
    threads := closeAborted h.threads (h.openWithin id) now }, ?_, rfl, rfl, rfl, ?_⟩
  · simp only [abort, require_eq_ok hg, hp, bind, Except.bind]
  · exact get?_closeAborted _ now h.threads

theorem abort_ok {id : ThreadId} {now : Time} {ids : List ThreadId}
    (ha : h.abort id now = .ok (h', ids)) :
    ∃ t p, h.get? id = some t ∧ t.parent = some p := by
  cases hg : h.get? id with
  | none => simp [abort, require_eq_error hg, bind, Except.bind] at ha
  | some t =>
    cases hp : t.parent with
    | none => simp [abort, require_eq_ok hg, hp, bind, Except.bind] at ha
    | some p => exact ⟨t, p, rfl, hp⟩

/-- Aborting an open nested session goes back to its parent. -/
theorem abort_of_open {id p : ThreadId} {t : Thread}
    (hg : h.get? id = some t) (hp : t.parent = some p) (hid : id ∈ h.lineage h.active)
    (now : Time) : ∃ h', h.abort id now = .ok (h', h.openWithin id) ∧ h'.active = p := by
  rcases abort_eq hg hp now with ⟨h', hok, hm⟩
  refine ⟨h', hok, ?_⟩
  rw [hm.active, if_pos (isWithin_iff.2 hid)]

theorem mem_openWithin (ht : IsTree h) {id x : ThreadId} :
    x ∈ h.openWithin id ↔ ∃ t, h.get? x = some t ∧ t.status = .active ∧ id ∈ h.lineage x := by
  unfold openWithin
  constructor
  · intro hx
    rcases List.mem_map.1 hx with ⟨t, hmem, rfl⟩
    rcases List.mem_filter.1 hmem with ⟨hval, hcond⟩
    rcases Dict.mem_values_iff.1 hval with ⟨key, hkey⟩
    have hid : t.id = key := ht.id_eq hkey
    simp only [Bool.and_eq_true, Thread.isActive, beq_iff_eq] at hcond
    exact ⟨t, hid ▸ hkey, hcond.1, isWithin_iff.1 hcond.2⟩
  · rintro ⟨t, hg, hs, hmem⟩
    refine List.mem_map.2 ⟨t, List.mem_filter.2 ⟨Dict.mem_values_iff.2 ⟨x, hg⟩, ?_⟩, ht.id_eq hg⟩
    simp only [Bool.and_eq_true, Thread.isActive, beq_iff_eq, ht.id_eq hg]
    exact ⟨hs, isWithin_iff.2 hmem⟩

/-- No two threads have one name. -/
theorem values_ids_nodup (ht : IsTree h) : (h.threads.values.map (·.id)).Nodup := by
  rw [Dict.values, List.map_map]
  refine List.pairwise_map.2 (h.threads.sorted.imp_of_mem ?_)
  rintro ⟨a, t⟩ ⟨b, u⟩ ha hb hlt heq
  -- every thread is filed under its name, and the names ascend
  have hta : t.id = a := ht.id_eq (Dict.mem_entries_iff.1 ha)
  have hub : u.id = b := ht.id_eq (Dict.mem_entries_iff.1 hb)
  have hab : a = b := hta.symm.trans (heq.trans hub)
  exact String.lt_irrefl _ (hab ▸ hlt)

/-- No thread is aborted twice. -/
theorem openWithin_nodup (ht : IsTree h) (id : ThreadId) : (h.openWithin id).Nodup :=
  (values_ids_nodup ht).sublist (List.filter_sublist.map _)

/-- What is aborted above a mark is a session, or nothing. -/
theorem abortAbove_cases {mark : ThreadId} {now : Time} {ids : List ThreadId}
    (ha : h.abortAbove mark now = .ok (h', ids)) :
    (h' = h ∧ ids = []) ∨ ∃ id, h.abort id now = .ok (h', ids) := by
  unfold abortAbove at ha
  split at ha
  · cases ha
    exact Or.inl ⟨rfl, rfl⟩
  · split at ha
    · exact Or.inr ⟨_, ha⟩
    · cases ha
      exact Or.inl ⟨rfl, rfl⟩

/-- What is aborted after a run is a session, or nothing. -/
theorem abortRun_cases {mark : ThreadId} {now : Time} {ids : List ThreadId}
    (ha : h.abortRun mark now = .ok (h', ids)) :
    (h' = h ∧ ids = []) ∨ ∃ id, h.abort id now = .ok (h', ids) := by
  simp only [abortRun] at ha
  split at ha
  · exact abortAbove_cases ha
  · exact Or.inr ⟨_, ha⟩

/-! ## Entering -/

theorem parentForEntry_eq {t : Thread} (hg : h.get? h.active = some t) :
    h.parentForEntry =
      if h.limits.maxDepth ≤ t.depth then .error (.depthExceeded (t.depth + 1) h.limits.maxDepth)
      else .ok t := by
  simp only [parentForEntry, require_eq_ok hg, bind, Except.bind]

/-- What an entered session changes: its parent gets an anchor, and the session itself is new. -/
structure Enters (h h' : Hierarchy) (id : ThreadId) (p child : Thread) : Prop where
  root : h'.root = h.root
  limits : h'.limits = h.limits
  active : h'.active = id
  parent : h.get? h.active = some p
  depth_lt : p.depth < h.limits.maxDepth
  get?_new : h'.get? id = some child
  get?_old : ∀ {x}, x ≠ id →
    h'.get? x = (h.get? x).map (fun t => if x = h.active then t.push (.anchor id) else t)

/-- A session is entered under the active one or rejected for its depth. -/
theorem enter_cases (ht : IsTree h) {p : Thread} (hg : h.get? h.active = some p) (id : ThreadId)
    (ratio : Option Double) (label : Option String) (now : Time) :
    (h.limits.maxDepth ≤ p.depth ∧ h.enter id ratio label now =
        .error (.depthExceeded (p.depth + 1) h.limits.maxDepth)) ∨
      ∃ h', h.enter id ratio label now = .ok h' ∧
        Enters h h' id p (Thread.nested id p (ratio.getD h.limits.defaultRatio) label now) := by
  have hid : p.id = h.active := ht.id_eq hg
  by_cases hd : h.limits.maxDepth ≤ p.depth
  · refine Or.inl ⟨hd, ?_⟩
    simp only [enter, parentForEntry_eq hg, if_pos hd, bind, Except.bind]
  · refine Or.inr ⟨{ h with
      active := id
      threads := (h.threads.insert p.id (p.push (.anchor id))).insert id
        (Thread.nested id p (ratio.getD h.limits.defaultRatio) label now) }, ?_, ?_⟩
    · simp only [enter, parentForEntry_eq hg, if_neg hd, require_eq_ok (hid ▸ hg), bind,
        Except.bind]
    · refine ⟨rfl, rfl, rfl, hg, by omega, by simp [get?], fun {x} hne => ?_⟩
      simp only [get?, Dict.get?_insert, if_neg hne, hid] at hg ⊢
      by_cases hx : x = h.active
      · simp [hx, hg]
      · simp [hx]

theorem enter_ok (ht : IsTree h) (hmem : h.get? h.active ≠ none) {id : ThreadId}
    {ratio : Option Double} {label : Option String} {now : Time}
    (he : h.enter id ratio label now = .ok h') :
    ∃ p, Enters h h' id p (Thread.nested id p (ratio.getD h.limits.defaultRatio) label now) := by
  rcases Option.ne_none_iff_exists'.1 hmem with ⟨p, hg⟩
  rcases enter_cases ht hg id ratio label now with ⟨_, herr⟩ | ⟨h'', hok, hent⟩
  · rw [herr] at he
    cases he
  · rw [hok] at he
    cases he
    exact ⟨p, hent⟩

/-- Entering a session under a new name only adds to the hierarchy. -/
theorem Enters.grows {id : ThreadId} {p : Thread} {ratio : Double}
    {label : Option String} {now : Time} (hfresh : h.get? id = none)
    (he : Enters h h' id p (Thread.nested id p ratio label now)) : Grows h h' where
  root := he.root
  limits := he.limits
  thread := fun {x t} hx => by
    -- the new name belongs to no thread that was there
    have hxid : x ≠ id := by
      rintro rfl
      rw [hfresh] at hx
      cases hx
    refine ⟨_, by rw [he.get?_old hxid, hx, Option.map_some], ?_⟩
    split
    · exact .push t _
    · exact .refl t
  born := fun {x t'} hnone hx hs => by
    by_cases hxid : x = id
    · rw [hxid, he.get?_new] at hx
      cases hx
      rfl
    · rw [he.get?_old hxid, hnone] at hx
      cases hx

end Playbook.Hierarchy
