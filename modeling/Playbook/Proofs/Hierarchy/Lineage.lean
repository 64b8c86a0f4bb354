import Mathlib.Data.List.Nodup
import Playbook.Hierarchy
import Playbook.Proofs.Dict

/-! # The tree of sessions

A hierarchy is a tree when every thread is filed under its name, the primary session alone has no parent,
and every other thread stands one below a parent that is there too. The lineage of a thread is the
list of names from the primary session down to it.

Main statements: `IsTree.pathTo_child` says that the path to a thread is the path to its parent with the
thread behind it, `IsTree.length_pathTo` that a path has one thread more than its depth, and
`IsTree.lineage_isPrefix` that the lineages of ancestors are the beginnings of a lineage.
-/

namespace Playbook.Hierarchy

/-- The threads of a hierarchy form a tree under the primary session. -/
structure IsTree (h : Hierarchy) : Prop where
  id_eq : ∀ {id t}, h.get? id = some t → t.id = id
  root_mem : ∃ t, h.get? h.root = some t ∧ t.parent = none ∧ t.depth = 0
  eq_root : ∀ {id t}, h.get? id = some t → t.parent = none → id = h.root
  parent_mem : ∀ {id t p}, h.get? id = some t → t.parent = some p →
    ∃ q, h.get? p = some q ∧ t.depth = q.depth + 1

/-- The names of the threads from the primary session down to one. -/
def lineage (h : Hierarchy) (id : ThreadId) : List ThreadId := (h.pathTo id).map (·.id)

variable {h : Hierarchy}

theorem isWithin_iff {id ancestor : ThreadId} :
    h.isWithin id ancestor = true ↔ ancestor ∈ h.lineage id := by
  simp only [isWithin, lineage, List.any_eq_true, List.mem_map, beq_iff_eq]

/-! ## Climbing -/

theorem climb_of_get?_none {id : ThreadId} (hg : h.get? id = none) (n : Nat) :
    h.climb n id = [] := by
  cases n with
  | zero => rfl
  | succ n => simp [climb, hg]

theorem climb_of_parent_none {id : ThreadId} {t : Thread} (hg : h.get? id = some t)
    (hp : t.parent = none) (n : Nat) : h.climb (n + 1) id = [t] := by
  simp [climb, hg, hp]

theorem climb_of_parent_some {id p : ThreadId} {t : Thread} (hg : h.get? id = some t)
    (hp : t.parent = some p) (n : Nat) : h.climb (n + 1) id = t :: h.climb n p := by
  simp [climb, hg, hp]

namespace IsTree

/-- The primary session is at depth zero. -/
theorem depth_eq_zero (ht : IsTree h) {id : ThreadId} {t : Thread} (hg : h.get? id = some t)
    (hp : t.parent = none) : t.depth = 0 := by
  rcases ht.root_mem with ⟨r, hr, _, hdepth⟩
  have hid : id = h.root := ht.eq_root hg hp
  rw [hid, hr] at hg
  cases hg
  exact hdepth

/-- The way up from a thread meets threads of the hierarchy only. -/
theorem get?_of_mem_climb (ht : IsTree h) {n : Nat} {id : ThreadId} {x : Thread}
    (hx : x ∈ h.climb n id) : h.get? x.id = some x := by
  induction n generalizing id with
  | zero => simp [climb] at hx
  | succ n ih =>
    cases hg : h.get? id with
    | none => simp [climb_of_get?_none hg] at hx
    | some t =>
      cases hp : t.parent with
      | none =>
        rw [climb_of_parent_none hg hp, List.mem_singleton] at hx
        rw [hx, ht.id_eq hg, hg]
      | some p =>
        rw [climb_of_parent_some hg hp] at hx
        rcases List.mem_cons.1 hx with rfl | hx
        · rw [ht.id_eq hg, hg]
        · exact ih hx

/-- The way up from a thread meets no deeper thread. -/
theorem depth_le_of_mem_climb (ht : IsTree h) {n : Nat} {id : ThreadId} {t x : Thread}
    (hg : h.get? id = some t) (hx : x ∈ h.climb n id) : x.depth ≤ t.depth := by
  induction n generalizing id t with
  | zero => simp [climb] at hx
  | succ n ih =>
    cases hp : t.parent with
    | none =>
      rw [climb_of_parent_none hg hp, List.mem_singleton] at hx
      exact Nat.le_of_eq (congrArg Thread.depth hx)
    | some p =>
      rw [climb_of_parent_some hg hp] at hx
      rcases List.mem_cons.1 hx with rfl | hx
      · exact Nat.le_refl _
      · rcases ht.parent_mem hg hp with ⟨q, hq, hdepth⟩
        have := ih hq hx
        omega

/-- Depths decrease on the way up. -/
theorem climb_pairwise (ht : IsTree h) (n : Nat) (id : ThreadId) :
    (h.climb n id).Pairwise (fun a b => b.depth < a.depth) := by
  induction n generalizing id with
  | zero => exact List.Pairwise.nil
  | succ n ih =>
    cases hg : h.get? id with
    | none =>
      rw [climb_of_get?_none hg]
      exact List.Pairwise.nil
    | some t =>
      cases hp : t.parent with
      | none =>
        rw [climb_of_parent_none hg hp]
        exact List.pairwise_singleton _ _
      | some p =>
        rw [climb_of_parent_some hg hp]
        -- what is met later lies at most as deep as the parent
        refine List.pairwise_cons.2 ⟨?_, ih p⟩
        intro x hx
        rcases ht.parent_mem hg hp with ⟨q, hq, hdepth⟩
        have := ht.depth_le_of_mem_climb hq hx
        omega

theorem climb_ids_nodup (ht : IsTree h) (n : Nat) (id : ThreadId) :
    ((h.climb n id).map (·.id)).Nodup := by
  refine List.pairwise_map.2 ((ht.climb_pairwise n id).imp_of_mem ?_)
  intro a b ha hb hlt heq
  -- the hierarchy has one thread of that name, and no thread is deeper than itself
  have hab : some a = some b := by
    rw [← ht.get?_of_mem_climb ha, ← ht.get?_of_mem_climb hb, heq]
  cases hab
  exact Nat.lt_irrefl _ hlt

/-- With a bound above its depth the way up from a thread reaches the primary session. -/
theorem length_climb (ht : IsTree h) {n : Nat} {id : ThreadId} {t : Thread}
    (hg : h.get? id = some t) (hn : t.depth < n) : (h.climb n id).length = t.depth + 1 := by
  induction n generalizing id t with
  | zero => omega
  | succ n ih =>
    cases hp : t.parent with
    | none =>
      rw [climb_of_parent_none hg hp, ht.depth_eq_zero hg hp]
      rfl
    | some p =>
      rcases ht.parent_mem hg hp with ⟨q, hq, hdepth⟩
      rw [climb_of_parent_some hg hp, List.length_cons, ih hq (by omega), hdepth]

/-- Bounds above the depth make no difference. -/
theorem climb_eq_climb (ht : IsTree h) {n m : Nat} {id : ThreadId} {t : Thread}
    (hg : h.get? id = some t) (hn : t.depth < n) (hm : t.depth < m) :
    h.climb n id = h.climb m id := by
  induction n generalizing m id t with
  | zero => omega
  | succ n ih =>
    cases m with
    | zero => omega
    | succ m =>
      cases hp : t.parent with
      | none => rw [climb_of_parent_none hg hp, climb_of_parent_none hg hp]
      | some p =>
        rcases ht.parent_mem hg hp with ⟨q, hq, hdepth⟩
        rw [climb_of_parent_some hg hp, climb_of_parent_some hg hp,
          ih (m := m) hq (by omega) (by omega)]

/-- No thread is deeper than there are others: the way up from it has distinct names. -/
theorem depth_lt_size (ht : IsTree h) {id : ThreadId} {t : Thread} (hg : h.get? id = some t) :
    t.depth < h.threads.size := by
  -- the way up meets no name twice, so there are at least as many threads
  have hlen : ((h.climb (t.depth + 1) id).map (·.id)).length ≤ h.threads.size := by
    refine Dict.length_le_size (ht.climb_ids_nodup _ id) ?_
    intro key hkey
    rcases List.mem_map.1 hkey with ⟨x, hx, rfl⟩
    have hin : h.threads.get? x.id = some x := ht.get?_of_mem_climb hx
    rw [hin]
    rfl
  rw [List.length_map, ht.length_climb hg (Nat.lt_succ_self _)] at hlen
  omega

/-! ## Paths -/

theorem get?_of_mem_pathTo (ht : IsTree h) {id : ThreadId} {x : Thread}
    (hx : x ∈ h.pathTo id) : h.get? x.id = some x :=
  ht.get?_of_mem_climb (List.mem_reverse.1 hx)

theorem pathTo_eq_nil {id : ThreadId} (hg : h.get? id = none) : h.pathTo id = [] := by
  rw [pathTo, climb_of_get?_none hg]
  rfl

/-- The path to a thread has one thread more than its depth. -/
theorem length_pathTo (ht : IsTree h) {id : ThreadId} {t : Thread} (hg : h.get? id = some t) :
    (h.pathTo id).length = t.depth + 1 := by
  rw [pathTo, List.length_reverse]
  exact ht.length_climb hg (ht.depth_lt_size hg)

theorem pathTo_root (ht : IsTree h) {r : Thread} (hr : h.get? h.root = some r) :
    h.pathTo h.root = [r] := by
  rcases ht.root_mem with ⟨r', hr', hp, _⟩
  rw [hr] at hr'
  cases hr'
  have hsize := ht.depth_lt_size hr
  obtain ⟨n, hn⟩ : ∃ n, h.threads.size = n + 1 := ⟨h.threads.size - 1, by omega⟩
  rw [pathTo, hn, climb_of_parent_none hr hp]
  rfl

/-- The path to a thread is the path to its parent with the thread behind it. -/
theorem pathTo_child (ht : IsTree h) {id p : ThreadId} {t : Thread} (hg : h.get? id = some t)
    (hp : t.parent = some p) : h.pathTo id = h.pathTo p ++ [t] := by
  rcases ht.parent_mem hg hp with ⟨q, hq, hdepth⟩
  have hsize := ht.depth_lt_size hg
  obtain ⟨n, hn⟩ : ∃ n, h.threads.size = n + 1 := ⟨h.threads.size - 1, by omega⟩
  -- the climb from the parent has one step less, which it does not need
  have hshort : h.climb n p = h.climb h.threads.size p :=
    ht.climb_eq_climb hq (by omega) (by omega)
  rw [pathTo, pathTo, ← hshort, hn, climb_of_parent_some hg hp, List.reverse_cons]

/-! ## Lineages -/

theorem lineage_root (ht : IsTree h) : h.lineage h.root = [h.root] := by
  rcases ht.root_mem with ⟨r, hr, _, _⟩
  rw [lineage, ht.pathTo_root hr]
  simp [ht.id_eq hr]

theorem lineage_child (ht : IsTree h) {id p : ThreadId} {t : Thread} (hg : h.get? id = some t)
    (hp : t.parent = some p) : h.lineage id = h.lineage p ++ [id] := by
  rw [lineage, ht.pathTo_child hg hp, List.map_append]
  simp [lineage, ht.id_eq hg]

theorem lineage_nodup (ht : IsTree h) (id : ThreadId) : (h.lineage id).Nodup := by
  rw [lineage, pathTo, List.map_reverse]
  exact List.nodup_reverse.2 (ht.climb_ids_nodup _ id)

theorem get?_of_mem_lineage (ht : IsTree h) {id x : ThreadId} (hx : x ∈ h.lineage id) :
    ∃ t, h.get? x = some t := by
  rcases List.mem_map.1 hx with ⟨t, hmem, rfl⟩
  exact ⟨t, ht.get?_of_mem_pathTo hmem⟩

/-- Induction from the primary session downwards. -/
theorem induction_down (ht : IsTree h) {P : ThreadId → Prop} (hroot : P h.root)
    (hchild : ∀ id t p, h.get? id = some t → t.parent = some p → P p → P id)
    {id : ThreadId} {t : Thread} (hg : h.get? id = some t) : P id := by
  -- the induction is on the depth, which is that of the parent and one more
  induction hn : t.depth generalizing id t with
  | zero =>
    cases hp : t.parent with
    | none => exact ht.eq_root hg hp ▸ hroot
    | some p =>
      rcases ht.parent_mem hg hp with ⟨q, _, hdepth⟩
      omega
  | succ n ih =>
    cases hp : t.parent with
    | none =>
      have := ht.depth_eq_zero hg hp
      omega
    | some p =>
      rcases ht.parent_mem hg hp with ⟨q, hq, hdepth⟩
      exact hchild id t p hg hp (ih hq (by omega))

/-- A thread ends its own lineage. -/
theorem self_mem_lineage (ht : IsTree h) {id : ThreadId} {t : Thread}
    (hg : h.get? id = some t) : id ∈ h.lineage id := by
  cases hp : t.parent with
  | none => simp [ht.eq_root hg hp, ht.lineage_root]
  | some p => simp [ht.lineage_child hg hp]

/-- The primary session begins every lineage. -/
theorem root_mem_lineage (ht : IsTree h) {id : ThreadId} {t : Thread}
    (hg : h.get? id = some t) : h.root ∈ h.lineage id := by
  refine ht.induction_down (P := fun id => h.root ∈ h.lineage id) ?_ ?_ hg
  · simp [ht.lineage_root]
  · intro id t p hg hp ih
    rw [ht.lineage_child hg hp]
    exact List.mem_append_left _ ih

/-- The lineage of an ancestor is the beginning of a lineage. -/
theorem lineage_isPrefix (ht : IsTree h) {id x : ThreadId} (hx : x ∈ h.lineage id) :
    h.lineage x <+: h.lineage id := by
  cases hg : h.get? id with
  | none => simp [lineage, pathTo_eq_nil hg] at hx
  | some t =>
    -- down from the root; the lineage of a child ends with the child
    refine ht.induction_down (P := fun id => x ∈ h.lineage id → h.lineage x <+: h.lineage id)
      ?_ ?_ hg hx
    · intro hx
      rw [ht.lineage_root, List.mem_singleton] at hx
      exact hx ▸ List.prefix_refl _
    · intro id t p hg hp ih hx
      rw [ht.lineage_child hg hp] at hx ⊢
      rcases List.mem_append.1 hx with hx | hx
      · exact (ih hx).trans (List.prefix_append _ _)
      · have hself : h.lineage x = h.lineage p ++ [id] := by
          rw [List.mem_singleton.1 hx, ht.lineage_child hg hp]
        exact ⟨[], by rw [hself, List.append_nil]⟩

/-- Where every thread keeps its parent, every thread keeps its lineage. -/
theorem lineage_eq_of_parents {h' : Hierarchy} (ht : IsTree h) (ht' : IsTree h')
    (hroot : h'.root = h.root)
    (hparent : ∀ {id t}, h.get? id = some t → ∃ t', h'.get? id = some t' ∧ t'.parent = t.parent)
    {id : ThreadId} (hs : h.get? id ≠ none) : h'.lineage id = h.lineage id := by
  rcases Option.ne_none_iff_exists'.1 hs with ⟨t, hg⟩
  refine ht.induction_down (P := fun id => h'.lineage id = h.lineage id) ?_ ?_ hg
  · rw [ht.lineage_root, ← hroot, ht'.lineage_root]
  · intro id t p hg hp ih
    rcases hparent hg with ⟨t', hg', hp'⟩
    rw [ht.lineage_child hg hp, ht'.lineage_child hg' (hp'.trans hp), ih]

/-- A thread is not among its own ancestors. -/
theorem not_mem_lineage_parent (ht : IsTree h) {id p : ThreadId} {t : Thread}
    (hg : h.get? id = some t) (hp : t.parent = some p) : id ∉ h.lineage p := by
  have hnd := ht.lineage_nodup id
  rw [ht.lineage_child hg hp] at hnd
  intro hmem
  exact (List.nodup_append.1 hnd).2.2 id hmem id (List.mem_singleton.2 rfl) rfl

/-- Below a thread the path goes on with a child of it. -/
theorem exists_child_towards (ht : IsTree h) {mark x : ThreadId} {a : Thread} (ha : h.get? x = some a)
    (hm : mark ∈ h.lineage x) (hne : x ≠ mark) :
    ∃ id t, h.get? id = some t ∧ t.parent = some mark ∧ id ∈ h.lineage x ∧
      ∃ rest, h.pathTo x = h.pathTo mark ++ t :: rest := by
  refine ht.induction_down
    (P := fun x => mark ∈ h.lineage x → x ≠ mark → ∃ id t, h.get? id = some t ∧
      t.parent = some mark ∧ id ∈ h.lineage x ∧ ∃ rest, h.pathTo x = h.pathTo mark ++ t :: rest)
    ?_ ?_ ha hm hne
  · -- nothing is above the primary session
    intro hmem hnr
    rw [ht.lineage_root, List.mem_singleton] at hmem
    exact absurd hmem.symm hnr
  · intro x t p hg hp ih hmem hnx
    rw [ht.lineage_child hg hp] at hmem ⊢
    rcases List.mem_append.1 hmem with hmem | hmem
    · -- the child is the thread itself, or it is already on the way to the parent
      by_cases hpm : p = mark
      · refine ⟨x, t, hg, hpm ▸ hp, List.mem_append_right _ (List.mem_singleton.2 rfl), [], ?_⟩
        rw [ht.pathTo_child hg hp, hpm]
      · rcases ih hmem hpm with ⟨id, u, hu, hup, hid, rest, hpath⟩
        refine ⟨id, u, hu, hup, List.mem_append_left _ hid, rest ++ [t], ?_⟩
        rw [ht.pathTo_child hg hp, hpath, List.append_assoc]
        rfl
    · exact absurd (List.mem_singleton.1 hmem).symm hnx

/-- Two threads that are on each other's lineages are one. -/
theorem eq_of_mem_lineage (ht : IsTree h) {a b : ThreadId} (ha : a ∈ h.lineage b)
    (hb : b ∈ h.lineage a) : a = b := by
  obtain ⟨t, hg⟩ := ht.get?_of_mem_lineage hb
  cases hp : t.parent with
  | none =>
    have hroot := ht.eq_root hg hp
    subst hroot
    rw [ht.lineage_root, List.mem_singleton] at ha
    exact ha
  | some p =>
    rw [ht.lineage_child hg hp, List.mem_append, List.mem_singleton] at ha
    refine ha.resolve_left ?_
    intro hap
    exact ht.not_mem_lineage_parent hg hp ((ht.lineage_isPrefix hap).subset hb)

end IsTree

end Playbook.Hierarchy
