import Playbook.Hierarchy.Outline
import Playbook.Proofs.Hierarchy.Reachable

/-! # What a printed hierarchy shows

Printing a thread goes through its entries and prints each nested session where its anchor stands. It follows the
anchors without a bound; that it ends, leaves out no thread and prints none twice holds because the anchors are the
parents read backwards.

Main statements: `prints_outlineFrom` says that printing ends with the lines of the outline, `Prints.preorder` that
the headers stand in the order of the tree, `Preorder.mem_iff` and `Preorder.nodup` which threads this order holds,
and `outline_of_reachable` puts together what is printed of a hierarchy that is made by calls.
-/

namespace Playbook

/-! ## Headers -/

/-- The thread of a header, and whether it is marked as the active one. -/
def OutlineLine.header? : OutlineLine → Option (Thread × Bool)
  | .header t isActive => some (t, isActive)
  | _ => none

namespace Hierarchy

/-- The headers among some lines. -/
def headers (lines : List OutlineLine) : List (Thread × Bool) := lines.filterMap OutlineLine.header?

/-- The threads that have headers among some lines. -/
def headed (lines : List OutlineLine) : List Thread := (headers lines).map Prod.fst

variable {h : Hierarchy} {names : List ThreadId}

theorem headers_append (lines lines' : List OutlineLine) :
    headers (lines ++ lines') = headers lines ++ headers lines' :=
  List.filterMap_append

/-! ## Printing -/

/-- The rendering of an anchor in a thread at this depth. -/
def anchorLines (h : Hierarchy) (depth : Nat) (child : ThreadId) : List OutlineLine :=
  (Text.lines (h.renderAnchor child h.root)).map (.anchor depth)

/-- The lines of an entry in a thread at this depth, where each nested session has the lines that are given. -/
def entryLines (h : Hierarchy) (depth : Nat) (nested : ThreadId → List OutlineLine) : Entry → List OutlineLine
  | .message role content _ => [.message depth ⟨role, content⟩]
  | .anchor child => h.anchorLines depth child ++ nested child

/-- Printing a thread ends, with these lines: its header, and its entries with the nested sessions where they are
anchored. -/
inductive Prints (h : Hierarchy) : ThreadId → List OutlineLine → Prop where
  | missing {id : ThreadId} : h.get? id = none → Prints h id []
  | thread {id : ThreadId} {t : Thread} {nested : ThreadId → List OutlineLine} :
      h.get? id = some t → (∀ c ∈ t.anchors, Prints h c (nested c)) →
        Prints h id (.header t (h.active == id) :: t.entries.flatMap (h.entryLines t.depth nested))

theorem mem_anchors_iff {t : Thread} {c : ThreadId} : c ∈ t.anchors ↔ .anchor c ∈ t.entries := by
  rw [Thread.anchors, List.mem_filterMap]
  constructor
  · rintro ⟨e, he, hc⟩
    cases e with
    | message role content tags => cases hc
    | anchor child =>
      cases hc
      exact he
  · intro hc
    exact ⟨.anchor c, hc, rfl⟩

theorem entryLines_congr {depth : Nat} {nested nested' : ThreadId → List OutlineLine} {e : Entry}
    (heq : ∀ c, e = .anchor c → nested c = nested' c) : h.entryLines depth nested e = h.entryLines depth nested' e := by
  cases e with
  | message role content tags => rfl
  | anchor child => rw [entryLines, entryLines, heq child rfl]

/-- Printing has one end. -/
theorem Prints.unique {id : ThreadId} {lines lines' : List OutlineLine} (hp : Prints h id lines)
    (hp' : Prints h id lines') : lines' = lines := by
  induction hp generalizing lines' with
  | missing hnone =>
    cases hp' with
    | missing _ => rfl
    | thread hg _ =>
      rw [hnone] at hg
      cases hg
  | @thread id t nested hg _ ih =>
    cases hp' with
    | missing hnone =>
      rw [hnone] at hg
      cases hg
    | @thread _ t' nested' hg' hnested' =>
      rw [hg] at hg'
      cases hg'
      refine congrArg (List.cons _) (List.flatMap_congr fun e he => entryLines_congr fun c hc => ?_)
      have hin : c ∈ t.anchors := mem_anchors_iff.2 (hc ▸ he)
      exact ih c hin (hnested' c hin)

theorem outlineFrom_succ {id : ThreadId} {t : Thread} (hg : h.get? id = some t) (bound : Nat) :
    h.outlineFrom (bound + 1) id =
      .header t (h.active == id) :: t.entries.flatMap (h.entryLines t.depth (h.outlineFrom bound)) := by
  rw [outlineFrom, hg]
  refine congrArg (List.cons _) (List.flatMap_congr fun e _ => ?_)
  cases e <;> rfl

/-- A nested session is one deeper than the thread in which it is anchored. -/
theorem WellFormed.exists_of_mem_anchors (hw : WellFormed h) {id c : ThreadId} {t : Thread} (hg : h.get? id = some t)
    (hc : c ∈ t.anchors) : ∃ u, h.get? c = some u ∧ u.parent = some id ∧ u.depth = t.depth + 1 := by
  obtain ⟨u, hu, hp⟩ := parent?_eq_some.1 ((hw.mem_anchors hg).1 hc)
  rcases hw.parent_mem hu hp with ⟨q, hq, hdepth⟩
  rw [hg] at hq
  cases hq
  exact ⟨u, hu, hp, hdepth⟩

/-- With a bound that reaches from its depth to the number of threads, the outline of a thread is complete. -/
theorem prints_outlineFrom (hw : WellFormed h) {bound : Nat} {id : ThreadId} {t : Thread} (hg : h.get? id = some t)
    (hbound : h.threads.size ≤ t.depth + bound) : Prints h id (h.outlineFrom bound id) := by
  induction bound generalizing id t with
  | zero =>
    have hlt := hw.depth_lt_size hg
    omega
  | succ bound ih =>
    rw [outlineFrom_succ hg]
    refine .thread hg fun c hc => ?_
    obtain ⟨u, hu, -, hdepth⟩ := hw.exists_of_mem_anchors hg hc
    exact ih hu (by omega)

/-! ## The order of the headers -/

/-- The order of the tree from a thread downwards: the thread itself, and then its children with all that is beneath
them, in the order of the names. -/
inductive Preorder (names : List ThreadId) (h : Hierarchy) : ThreadId → List Thread → Prop where
  | node {id : ThreadId} {t : Thread} {beneath : ThreadId → List Thread} :
      h.get? id = some t → (∀ c ∈ names, h.parent? c = some id → Preorder names h c (beneath c)) →
        Preorder names h id (t :: (names.filter fun c => h.parent? c = some id).flatMap beneath)

/-- The children of a thread among the names. -/
theorem mem_children_iff {c id : ThreadId} :
    c ∈ names.filter (fun c => h.parent? c = some id) ↔ c ∈ names ∧ h.parent? c = some id := by
  rw [List.mem_filter, decide_eq_true_iff]

theorem headers_anchorLines (depth : Nat) (child : ThreadId) : headers (h.anchorLines depth child) = [] := by
  rw [headers, List.filterMap_eq_nil_iff]
  intro line hline
  obtain ⟨text, -, rfl⟩ := List.mem_map.1 hline
  rfl

/-- The headers beneath a thread are those of the sessions that are anchored in it. -/
theorem headers_entries (depth : Nat) (nested : ThreadId → List OutlineLine) (entries : List Entry) :
    headers (entries.flatMap (h.entryLines depth nested)) =
      (entries.filterMap Entry.anchor?).flatMap fun c => headers (nested c) := by
  induction entries with
  | nil => rfl
  | cons e entries ih =>
    rw [List.flatMap_cons, headers_append, ih]
    cases e with
    | message role content tags => rfl
    | anchor child =>
      rw [entryLines, headers_append, headers_anchorLines]
      rfl

theorem headed_thread (t : Thread) (isActive : Bool) (nested : ThreadId → List OutlineLine) :
    headed (.header t isActive :: t.entries.flatMap (h.entryLines t.depth nested)) =
      t :: t.anchors.flatMap fun c => headed (nested c) := by
  have hcons : headers (.header t isActive :: t.entries.flatMap (h.entryLines t.depth nested)) =
      (t, isActive) :: headers (t.entries.flatMap (h.entryLines t.depth nested)) := rfl
  rw [headed, hcons, headers_entries, List.map_cons, List.map_flatMap]
  rfl

/-- Printing goes through the threads in the order of the tree. -/
theorem Prints.preorder (hs : Sound names h) {id : ThreadId} {lines : List OutlineLine} (hp : Prints h id lines)
    (hne : h.get? id ≠ none) : Preorder names h id (headed lines) := by
  induction hp with
  | missing hnone => exact absurd hnone hne
  | @thread id t nested hg _ ih =>
    rw [headed_thread, hs.anchors_eq hg]
    refine .node hg fun c hc hpar => ih c ?_ ?_
    · rw [hs.anchors_eq hg]
      exact mem_children_iff.2 ⟨hc, hpar⟩
    · exact (hs.mem_names c).2 hc

/-- The parent of a thread is above it. -/
theorem IsTree.mem_lineage_of_parent? (ht : IsTree h) {c p : ThreadId} (hp : h.parent? c = some p) :
    p ∈ h.lineage c := by
  obtain ⟨t, hg, hpar⟩ := parent?_eq_some.1 hp
  rcases ht.parent_mem hg hpar with ⟨q, hq, _⟩
  rw [ht.lineage_child hg hpar]
  exact List.mem_append_left _ (ht.self_mem_lineage hq)

/-- Of the children of a thread at most one is on a lineage. -/
theorem IsTree.eq_of_parent?_eq (ht : IsTree h) {c c' p x : ThreadId} (hp : h.parent? c = some p)
    (hp' : h.parent? c' = some p) (hc : c ∈ h.lineage x) (hc' : c' ∈ h.lineage x) : c = c' := by
  obtain ⟨t, hg, hpar⟩ := parent?_eq_some.1 hp
  obtain ⟨t', hg', hpar'⟩ := parent?_eq_some.1 hp'
  have hbefore := ht.lineage_isPrefix hc
  have hbefore' := ht.lineage_isPrefix hc'
  rw [ht.lineage_child hg hpar] at hbefore
  rw [ht.lineage_child hg' hpar'] at hbefore'
  -- two beginnings of one length are the same
  have hlength : (h.lineage p ++ [c]).length = (h.lineage p ++ [c']).length := by simp
  have heq := (List.prefix_of_prefix_length_le hbefore hbefore' hlength.le).eq_of_length hlength
  exact (List.singleton_inj.1 (List.append_cancel_left heq))

namespace Preorder

variable {id : ThreadId} {l : List Thread}

/-- The order from a thread downwards holds that thread and all that are beneath it. -/
theorem mem_iff (hs : Sound names h) (ho : Preorder names h id l) {u : Thread} :
    u ∈ l ↔ h.get? u.id = some u ∧ id ∈ h.lineage u.id := by
  have ht : IsTree h := hs.openPath.toIsTree
  induction ho with
  | @node id t beneath hg _ ih =>
    rw [List.mem_cons, List.mem_flatMap]
    constructor
    · rintro (rfl | ⟨c, hc, hu⟩)
      · rw [ht.id_eq hg]
        exact ⟨hg, ht.self_mem_lineage hg⟩
      · obtain ⟨hname, hpar⟩ := mem_children_iff.1 hc
        obtain ⟨hgu, hin⟩ := (ih c hname hpar).1 hu
        exact ⟨hgu, (ht.lineage_isPrefix hin).subset (ht.mem_lineage_of_parent? hpar)⟩
    · rintro ⟨hgu, hin⟩
      by_cases hself : u.id = id
      · rw [hself, hg] at hgu
        cases hgu
        exact .inl rfl
      · -- the way down to the thread leads through a child
        obtain ⟨c, v, hc, hpar, hbelow, -⟩ := ht.exists_child_towards hgu hin hself
        have hname : c ∈ names := (hs.mem_names c).1 (by simp [hc])
        have hparent : h.parent? c = some id := parent?_eq_some.2 ⟨v, hc, hpar⟩
        exact .inr ⟨c, mem_children_iff.2 ⟨hname, hparent⟩, (ih c hname hparent).2 ⟨hgu, hbelow⟩⟩

/-- The order holds no thread twice. -/
theorem nodup (hs : Sound names h) (hnd : names.Nodup) (ho : Preorder names h id l) : l.Nodup := by
  have ht : IsTree h := hs.openPath.toIsTree
  induction ho with
  | @node id t beneath hg hbeneath ih =>
    refine List.nodup_cons.2 ⟨?_, List.nodup_flatMap.2 ⟨?_, ?_⟩⟩
    · intro hin
      obtain ⟨c, hc, hu⟩ := List.mem_flatMap.1 hin
      obtain ⟨hname, hpar⟩ := mem_children_iff.1 hc
      obtain ⟨v, hv, hvpar⟩ := parent?_eq_some.1 hpar
      -- the thread would be beneath its own child
      have habove := ((hbeneath c hname hpar).mem_iff hs).1 hu
      rw [ht.id_eq hg] at habove
      exact ht.not_mem_lineage_parent hv hvpar habove.2
    · intro c hc
      obtain ⟨hname, hpar⟩ := mem_children_iff.1 hc
      exact ih c hname hpar
    · refine (hnd.filter _).imp_of_mem ?_
      intro c c' hc hc' hne u hu hu'
      obtain ⟨hname, hpar⟩ := mem_children_iff.1 hc
      obtain ⟨hname', hpar'⟩ := mem_children_iff.1 hc'
      exact hne (ht.eq_of_parent?_eq hpar hpar' (((hbeneath c hname hpar).mem_iff hs).1 hu).2
        (((hbeneath c' hname' hpar').mem_iff hs).1 hu').2)

/-- From the primary session downwards the order holds all threads. -/
theorem perm_values (hs : Sound names h) (hnd : names.Nodup) (ho : Preorder names h h.root l) :
    l.Perm h.threads.values := by
  have ht : IsTree h := hs.openPath.toIsTree
  refine (List.perm_ext_iff_of_nodup (ho.nodup hs hnd) (values_ids_nodup ht).of_map).2 fun u => ?_
  rw [ho.mem_iff hs, Dict.mem_values_iff]
  constructor
  · rintro ⟨hg, -⟩
    exact ⟨u.id, hg⟩
  · rintro ⟨id, hg⟩
    have hg' : h.get? u.id = some u := by
      rw [ht.id_eq hg]
      exact hg
    exact ⟨hg', ht.root_mem_lineage hg'⟩

end Preorder

/-! ## Marks -/

/-- The active thread is marked, and no other is. -/
theorem Prints.headers_eq (ht : IsTree h) {id : ThreadId} {lines : List OutlineLine} (hp : Prints h id lines) :
    headers lines = (headed lines).map fun t => (t, h.active == t.id) := by
  have hmark : ∀ p ∈ headers lines, p.2 = (h.active == p.1.id) := by
    induction hp with
    | missing _ => exact fun p hin => nomatch hin
    | @thread id t nested hg _ ih =>
      intro p hin
      rcases List.mem_cons.1 hin with rfl | hin
      · rw [ht.id_eq hg]
      · rw [← headers, headers_entries] at hin
        obtain ⟨c, hc, hnested⟩ := List.mem_flatMap.1 hin
        exact ih c hc p hnested
  rw [headed, List.map_map]
  refine (List.map_id _).symm.trans (List.map_congr_left fun p hin => ?_)
  exact Prod.ext rfl (hmark p hin)

/-- One header is marked, that of the active thread. -/
theorem marked_eq (hs : Sound names h) (hnd : names.Nodup) {lines : List OutlineLine} (hp : Prints h h.root lines)
    (ho : Preorder names h h.root (headed lines)) :
    ∃ a, h.get? h.active = some a ∧ (headers lines).filter Prod.snd = [(a, true)] := by
  have ht : IsTree h := hs.openPath.toIsTree
  rcases hs.openPath.active_mem with ⟨a, ha⟩
  refine ⟨a, ha, ?_⟩
  have hself : h.get? a.id = some a := by rwa [ht.id_eq ha]
  have hin : a ∈ headed lines := (ho.mem_iff hs).2 ⟨hself, ht.root_mem_lineage hself⟩
  -- the active thread is among those that are printed, and it is there once
  have honly : (headed lines).filter (fun t => h.active == t.id) = [a] := by
    have hname : ∀ t ∈ headed lines, (h.active == t.id) = (t == a) := by
      intro t hmem
      have hg := ((ho.mem_iff hs).1 hmem).1
      rw [Bool.eq_iff_iff, beq_iff_eq, beq_iff_eq]
      constructor
      · intro heq
        rw [← heq, ha] at hg
        exact (Option.some.inj hg).symm
      · rintro rfl
        exact (ht.id_eq ha).symm
    rw [List.filter_congr hname, List.filter_beq, List.count_eq_one_of_mem (ho.nodup hs hnd) hin]
    rfl
  rw [hp.headers_eq ht, List.filter_map]
  have hcomp : (Prod.snd ∘ fun t : Thread => (t, h.active == t.id)) = fun t => h.active == t.id := rfl
  rw [hcomp, honly, List.map_singleton, ht.id_eq ha, beq_self_eq_true]

/-! ## Anchors -/

/-- The header of a thread stands right behind the rendering of its anchor, and this stands in its parent: behind the
header of the parent there is nothing before it but what is beneath the parent. -/
def StandsAnchored (h : Hierarchy) (lines : List OutlineLine) (t p : Thread) : Prop :=
  ∃ before between after marked marked',
    lines = before ++ .header p marked :: (between ++ h.anchorLines p.depth t.id ++ .header t marked' :: after) ∧
      ∀ u ∈ headed between, u ≠ p ∧ h.isWithin u.id p.id = true

theorem StandsAnchored.within {lines : List OutlineLine} {t p : Thread} (ha : StandsAnchored h lines t p)
    (first last : List OutlineLine) : StandsAnchored h (first ++ lines ++ last) t p := by
  obtain ⟨before, between, after, marked, marked', rfl, hbetween⟩ := ha
  exact ⟨first ++ before, between, after ++ last, marked, marked', by simp, hbetween⟩

/-- The lines of a thread begin with its header. -/
theorem Prints.begins {id : ThreadId} {t : Thread} {lines : List OutlineLine} (hp : Prints h id lines)
    (hg : h.get? id = some t) : ∃ rest, lines = .header t (h.active == id) :: rest := by
  cases hp with
  | missing hnone =>
    rw [hnone] at hg
    cases hg
  | thread hg' _ =>
    rw [hg] at hg'
    cases hg'
    exact ⟨_, rfl⟩

/-- What is printed for a child of a thread is beneath that thread. -/
theorem Prints.beneath (hs : Sound names h) {c id : ThreadId} {lines : List OutlineLine} (hp : Prints h c lines)
    (hpar : h.parent? c = some id) {u : Thread} (hu : u ∈ headed lines) : id ∈ h.lineage u.id ∧ u.id ≠ id := by
  have ht : IsTree h := hs.openPath.toIsTree
  obtain ⟨v, hv, hvpar⟩ := parent?_eq_some.1 hpar
  have hin := (((hp.preorder hs (by simp [hv])).mem_iff hs).1 hu).2
  refine ⟨(ht.lineage_isPrefix hin).subset (ht.mem_lineage_of_parent? hpar), ?_⟩
  intro heq
  rw [heq] at hin
  exact ht.not_mem_lineage_parent hv hvpar hin

/-- What stands before an anchor and behind it, and what is printed of it. -/
theorem exists_flatMap_split {t : Thread} {c : ThreadId} (hc : c ∈ t.anchors) (nested : ThreadId → List OutlineLine) :
    ∃ first last, t.entries = first ++ .anchor c :: last ∧
      t.entries.flatMap (h.entryLines t.depth nested) =
        first.flatMap (h.entryLines t.depth nested) ++ (h.anchorLines t.depth c ++ nested c) ++
          last.flatMap (h.entryLines t.depth nested) := by
  obtain ⟨first, last, hentries⟩ := List.append_of_mem (mem_anchors_iff.1 hc)
  refine ⟨first, last, hentries, ?_⟩
  rw [hentries, List.flatMap_append, List.flatMap_cons, entryLines]
  simp only [List.append_assoc]

/-- A child stands behind its anchor in the thread that is printed. -/
theorem standsAnchored_child (hs : Sound names h) (hw : WellFormed h) {id x : ThreadId} {p t : Thread}
    {nested : ThreadId → List OutlineLine} (hg : h.get? id = some p) (hnested : ∀ c ∈ p.anchors, Prints h c (nested c))
    (hx : h.get? x = some t) (hanchor : x ∈ p.anchors) (marked : Bool) :
    StandsAnchored h (.header p marked :: p.entries.flatMap (h.entryLines p.depth nested)) t p := by
  have ht : IsTree h := hw.toIsTree
  obtain ⟨first, last, hentries, hsplit⟩ := exists_flatMap_split (h := h) hanchor nested
  obtain ⟨rest, hbegins⟩ := (hnested x hanchor).begins hx
  refine ⟨[], first.flatMap (h.entryLines p.depth nested), rest ++ last.flatMap (h.entryLines p.depth nested),
    marked, h.active == x, ?_, ?_⟩
  · rw [hsplit, hbegins, ht.id_eq hx]
    simp
  · -- what stands between the two is beneath the children whose anchors come first
    intro v hv
    rw [headed, headers_entries, List.map_flatMap] at hv
    obtain ⟨c, hc, hv⟩ := List.mem_flatMap.1 hv
    have hc' : c ∈ p.anchors := by
      rw [Thread.anchors, hentries, List.filterMap_append]
      exact List.mem_append_left _ hc
    obtain ⟨habove, hne⟩ := (hnested c hc').beneath hs ((hw.mem_anchors hg).1 hc') hv
    rw [← ht.id_eq hg] at habove hne
    exact ⟨fun heq => hne (congrArg Thread.id heq), isWithin_iff.2 habove⟩

/-- Each thread beneath the one that is printed stands behind its anchor in its parent. -/
theorem Prints.standsAnchored (hs : Sound names h) (hw : WellFormed h) {id x q : ThreadId} {t p : Thread}
    {lines : List OutlineLine} (hp : Prints h id lines) (hx : h.get? x = some t) (hpar : t.parent = some q)
    (hq : h.get? q = some p) (hin : id ∈ h.lineage q) : StandsAnchored h lines t p := by
  have ht : IsTree h := hw.toIsTree
  induction hp with
  | @missing id hnone =>
    obtain ⟨u, hu⟩ := ht.get?_of_mem_lineage hin
    rw [hnone] at hu
    cases hu
  | @thread id u nested hg hnested ih =>
    by_cases hself : q = id
    · subst hself
      obtain rfl : u = p := Option.some.inj (hg.symm.trans hq)
      have hanchor : x ∈ u.anchors := (hw.mem_anchors hg).2 (parent?_eq_some.2 ⟨t, hx, hpar⟩)
      exact standsAnchored_child hs hw hg hnested hx hanchor _
    · -- the parent is beneath a child of the thread that is printed
      obtain ⟨c, v, hc, hcpar, hbelow, -⟩ := ht.exists_child_towards hq hin hself
      have hanchor : c ∈ u.anchors := (hw.mem_anchors hg).2 (parent?_eq_some.2 ⟨v, hc, hcpar⟩)
      obtain ⟨first, last, -, hsplit⟩ := exists_flatMap_split (h := h) hanchor nested
      have hstands := (ih c hanchor hbelow).within
        (.header u (h.active == id) :: first.flatMap (h.entryLines u.depth nested) ++ h.anchorLines u.depth c)
        (last.flatMap (h.entryLines u.depth nested))
      rw [hsplit]
      simpa using hstands

/-! ## Indentation -/

theorem toList_indent (depth : Nat) : (OutlineLine.indent depth).toList = List.replicate (2 * depth) ' ' := by
  rw [OutlineLine.indent, String.toList_join]
  induction depth with
  | zero => rfl
  | succ depth ih =>
    rw [List.replicate_succ, List.flatMap_cons, ih, Nat.mul_succ, Nat.add_comm, List.replicate_add]
    rfl

/-- A number ends with a digit. -/
theorem getLast?_toString (n : Nat) : ∃ c, (toString n).toList.getLast? = some c ∧ c.isDigit = true := by
  have hdigits : (toString n).toList = Nat.toDigits 10 n := by
    show (Nat.repr n).toList = _
    rw [Nat.repr_eq_ofList_toDigits, String.toList_ofList]
  rw [hdigits, List.getLast?_eq_getLast_of_ne_nil Nat.toDigits_ne_nil]
  exact ⟨_, rfl, Nat.isDigit_of_mem_toDigits (by decide) (by decide) (List.getLast_mem Nat.toDigits_ne_nil)⟩

/-- A header is indented by two blanks for each thread above, and ends with an asterisk if it is marked. -/
theorem toList_text_header (t : Thread) (marked : Bool) :
    ∃ rest, (OutlineLine.header t marked).text.toList =
      List.replicate (2 * t.depth) ' ' ++ (ThreadId.short t.id).toList ++ rest ∧
        (rest.getLast? = some '*' ↔ marked = true) := by
  refine ⟨" [".toList ++ t.status.name.toList ++ "] depth=".toList ++ (toString t.depth).toList ++
    " budget=".toList ++ (toString t.budget).toList ++ (if marked then " *" else "").toList, ?_, ?_⟩
  · simp only [OutlineLine.text, String.toList_append, toList_indent, List.append_assoc]
  · cases marked with
    | true =>
      have hmark : " *".toList = [' ', '*'] := rfl
      rw [if_pos rfl, hmark, List.getLast?_append]
      simp
    | false =>
      -- without a mark the line ends with a digit of the budget
      obtain ⟨c, hc, hdigit⟩ := getLast?_toString t.budget
      have hne : c ≠ '*' := fun heq => absurd (heq ▸ hdigit) (by decide)
      rw [if_neg Bool.false_ne_true, String.toList_empty, List.append_nil, List.getLast?_append, hc]
      simp [hne]

/-! ## The whole hierarchy -/

/-- What is printed of a hierarchy. The names are those that were drawn, in their order. -/
structure Outlined (names : List ThreadId) (h : Hierarchy) (lines : List OutlineLine) : Prop where
  /-- Printing ends, and it ends with these lines. -/
  prints_iff : ∀ lines', Prints h h.root lines' ↔ lines' = lines
  /-- Each thread has one header. -/
  once : (headed lines).Perm h.threads.values
  /-- The headers stand in the order of the tree, where siblings have the order in which they were entered. -/
  preorder : Preorder names h h.root (headed lines)
  /-- The header of a nested session stands behind the rendering of its anchor, among the lines of its parent. -/
  anchored : ∀ id t q p, h.get? id = some t → t.parent = some q → h.get? q = some p → StandsAnchored h lines t p
  /-- A header is indented by the depth of its thread, which is the number of threads above it. -/
  indented : ∀ t marked, .header t marked ∈ lines → (h.pathTo t.id).length = t.depth + 1 ∧
    ∃ rest, (OutlineLine.header t marked).text.toList =
      List.replicate (2 * t.depth) ' ' ++ (ThreadId.short t.id).toList ++ rest ∧
        (rest.getLast? = some '*' ↔ marked = true)
  /-- One header is marked, that of the active thread. -/
  marked : ∃ a, h.get? h.active = some a ∧ (headers lines).filter Prod.snd = [(a, true)]

theorem Sound.outlined (hs : Sound names h) (hnd : names.Nodup) : Outlined names h h.outline := by
  have hw : WellFormed h := hs.wellFormed hnd
  have ht : IsTree h := hw.toIsTree
  rcases ht.root_mem with ⟨r, hr, -, hdepth⟩
  have hprints : Prints h h.root h.outline := prints_outlineFrom hw hr (by omega)
  have horder : Preorder names h h.root (headed h.outline) := hprints.preorder hs (by simp [hr])
  refine
    { prints_iff := fun lines' => ⟨fun hp => hprints.unique hp, fun heq => heq ▸ hprints⟩
      once := horder.perm_values hs hnd
      preorder := horder
      anchored := fun id t q p hg hpar hq => hprints.standsAnchored hs hw hg hpar hq (ht.root_mem_lineage hq)
      indented := fun t marked hline => ⟨?_, toList_text_header t marked⟩
      marked := marked_eq hs hnd hprints horder }
  have hin : t ∈ headed h.outline :=
    List.mem_map.2 ⟨(t, marked), List.mem_filterMap.2 ⟨.header t marked, hline, rfl⟩, rfl⟩
  exact ht.length_pathTo ((horder.mem_iff hs).1 hin).1

/-- A session with another one inside is left, and a third one is entered. -/
def threeEntries : Numbered :=
  (Numbered.start unary "agent" 100 .default default).run unary
    [.enter none (some "outer") default, .enter none (some "inner") default, .record .user "hello" [],
      .leave "nn" (some "greeted") default, .leave "n" none default, .enter none none default]

/-- The session that was entered last is the active one, and comes after all that is beneath the first one. -/
example : (headers threeEntries.hierarchy.outline).map (fun p => (p.1.id, p.2)) =
    [("", false), ("n", false), ("nn", false), ("nnn", true)] := by
  decide

end Hierarchy

end Playbook
