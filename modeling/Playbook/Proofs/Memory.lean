import Mathlib.Data.List.Induction
import Mathlib.Data.List.Sort
import Playbook.Memory.Tables

/-! # What the memory recalls

The query for the newest long-term entries runs over the join of the entries with their tags. The rows of an entry
stand together there, as many as it carries the tag, so the list of the newest rows is that of the newest entries
exactly where no entry carries the tag twice.

Main statements: `chosen_append` says what an append adds to the rows that are found, `newest_chosen` that sorting
them turns them round, and `recall_tables` what is recalled after any appends, and when every entry is recalled
once.
-/

namespace Playbook.Memory

namespace Tables

variable {t : Tables} {e : MemoryEntry} {agent : String}

/-! ## The join -/

/-- The rows of the last entry come behind the others. -/
theorem joined_append (t : Tables) (e : MemoryEntry) :
    (t.append e).joined = t.joined ++
      e.tags.map fun tag => (⟨t.entries.length + 1, e⟩, ⟨t.entries.length + 1, tag⟩) := by
  have hold : ∀ row ∈ t.entries,
      (t.append e).tags.filter (fun tag => tag.number == row.number) =
        t.tags.filter fun tag => tag.number == row.number := by
    intro row hrow
    have hnone : (e.tags.map fun tag => (⟨t.entries.length + 1, tag⟩ : TagRow)).filter
        (fun tag => tag.number == row.number) = [] := by
      rw [List.filter_eq_nil_iff]
      intro tag htag
      obtain ⟨_, _, rfl⟩ := List.mem_map.1 htag
      have hle := t.entries_le row hrow
      simp only [beq_iff_eq]
      omega
    rw [append, List.filter_append, hnone, List.append_nil]
  have hnew : (t.append e).tags.filter (fun tag => tag.number == t.entries.length + 1) =
      e.tags.map fun tag => ⟨t.entries.length + 1, tag⟩ := by
    have hnone : t.tags.filter (fun tag => tag.number == t.entries.length + 1) = [] := by
      rw [List.filter_eq_nil_iff]
      intro tag htag
      have hle := t.tags_le tag htag
      simp only [beq_iff_eq]
      omega
    rw [append, List.filter_append, hnone, List.nil_append, List.filter_eq_self]
    intro tag htag
    obtain ⟨_, _, rfl⟩ := List.mem_map.1 htag
    exact beq_self_eq_true _
  have hentries : (t.append e).entries = t.entries ++ [⟨t.entries.length + 1, e⟩] := rfl
  rw [joined, hentries, List.flatMap_append, List.flatMap_singleton, hnew, List.map_map, joined]
  congr 1
  exact List.flatMap_congr fun row hrow => by rw [hold row hrow]

theorem number_le_of_mem_joined {p : EntryRow × TagRow} (h : p ∈ t.joined) :
    p.1.number ≤ t.entries.length := by
  obtain ⟨row, hrow, hp⟩ := List.mem_flatMap.1 h
  obtain ⟨_, _, rfl⟩ := List.mem_map.1 hp
  exact t.entries_le row hrow

/-- A chosen row of an entry with this number. -/
def longTermRow (number : Nat) (e : MemoryEntry) : EntryRow × TagRow := (⟨number, e⟩, ⟨number, longTermTag⟩)

/-- An append adds as many rows as the entry carries the tag, if it belongs to the agent. -/
theorem chosen_append (t : Tables) (e : MemoryEntry) (agent : String) :
    (t.append e).chosen agent = t.chosen agent ++
      if e.agent = agent then
        List.replicate (e.tags.count longTermTag) (longTermRow (t.entries.length + 1) e)
      else [] := by
  rw [chosen, joined_append, List.filter_append, chosen]
  congr 1
  rw [List.filter_map]
  by_cases hagent : e.agent = agent
  · have htag : (fun p : EntryRow × TagRow => p.1.entry.agent == agent && p.2.tag == longTermTag) ∘
        (fun tag => (⟨t.entries.length + 1, e⟩, ⟨t.entries.length + 1, tag⟩)) = (· == longTermTag) := by
      funext tag
      simp [hagent]
    rw [if_pos hagent, htag, List.filter_beq, List.map_replicate]
    rfl
  · rw [if_neg hagent, List.map_eq_nil_iff, List.filter_eq_nil_iff]
    intro tag _
    simp [hagent]

theorem number_le_of_mem_chosen {p : EntryRow × TagRow} (h : p ∈ t.chosen agent) :
    p.1.number ≤ t.entries.length :=
  number_le_of_mem_joined (List.mem_of_mem_filter h)

/-- A row that an append adds. -/
theorem eq_of_mem_chosen_append {p : EntryRow × TagRow} (h : p ∈ (t.append e).chosen agent) :
    p ∈ t.chosen agent ∨ p = longTermRow (t.entries.length + 1) e := by
  rw [chosen_append, List.mem_append] at h
  refine h.imp_right fun hnew => ?_
  split at hnew
  · exact List.eq_of_mem_replicate hnew
  · cases hnew

end Tables

open Tables

variable (es : List MemoryEntry) (agent : String) (limit : Nat)

theorem tables_concat (e : MemoryEntry) : tables (es ++ [e]) = (tables es).append e :=
  List.foldl_concat ..

/-! ## The newest rows -/

/-- The rows are found in the order of their numbers. -/
theorem chosen_ascending : ((tables es).chosen agent).Pairwise fun p q => p.1.number ≤ q.1.number := by
  induction es using List.reverseRecOn with
  | nil => exact List.Pairwise.nil
  | append_singleton es e ih =>
    rw [tables_concat, chosen_append, List.pairwise_append]
    refine ⟨ih, ?_, ?_⟩
    · split
      · exact List.pairwise_replicate.2 (.inr (Nat.le_refl _))
      · exact List.Pairwise.nil
    · intro p hp q hq
      split at hq
      · rw [List.eq_of_mem_replicate hq]
        exact Nat.le_succ_of_le (number_le_of_mem_chosen hp)
      · cases hq

/-- Rows that are found under one number are the same. -/
theorem chosen_inj {p q : EntryRow × TagRow} (hp : p ∈ (tables es).chosen agent)
    (hq : q ∈ (tables es).chosen agent) (h : p.1.number = q.1.number) : p = q := by
  induction es using List.reverseRecOn with
  | nil => cases hp
  | append_singleton es e ih =>
    rw [tables_concat] at hp hq
    have hnew : (longTermRow ((tables es).entries.length + 1) e).1.number = (tables es).entries.length + 1 := rfl
    rcases eq_of_mem_chosen_append hp with hp | rfl <;> rcases eq_of_mem_chosen_append hq with hq | rfl
    · exact ih hp hq
    · have hle := number_le_of_mem_chosen hp
      omega
    · have hle := number_le_of_mem_chosen hq
      omega
    · rfl

/-- Sorting by falling numbers turns the rows round. -/
theorem newest_chosen :
    ((tables es).chosen agent).mergeSort (fun p q => q.1.number ≤ p.1.number) =
      ((tables es).chosen agent).reverse := by
  let newer : EntryRow × TagRow → EntryRow × TagRow → Bool := fun p q => q.1.number ≤ p.1.number
  have hsorted : (((tables es).chosen agent).mergeSort newer).Pairwise fun p q => newer p q = true := by
    refine List.pairwise_mergeSort (fun p q r hpq hqr => ?_) (fun p q => ?_) _
    · exact decide_eq_true ((of_decide_eq_true hqr).trans (of_decide_eq_true hpq))
    · exact (Bool.or_eq_true _ _).mpr ((Nat.le_total q.1.number p.1.number).imp decide_eq_true decide_eq_true)
  have hreversed : ((tables es).chosen agent).reverse.Pairwise fun p q => newer p q = true :=
    List.pairwise_reverse.2 ((chosen_ascending es agent).imp decide_eq_true)
  have hperm := List.mergeSort_perm ((tables es).chosen agent) newer
  refine List.Perm.eq_of_pairwise ?_ hsorted hreversed (hperm.trans (List.reverse_perm _).symm)
  intro p q hp hq hpq hqp
  exact chosen_inj es agent (hperm.mem_iff.1 hp) (List.mem_reverse.1 hq)
    (Nat.le_antisymm (of_decide_eq_true hqp) (of_decide_eq_true hpq))

/-! ## What is recalled -/

/-- The entries of the rows that are found: each one as often as it carries the tag. -/
theorem entries_chosen :
    ((tables es).chosen agent).map (fun p => p.1.entry) =
      (es.filter fun e => e.agent == agent).flatMap fun e => List.replicate (e.tags.count longTermTag) e := by
  induction es using List.reverseRecOn with
  | nil => rfl
  | append_singleton es e ih =>
    rw [tables_concat, chosen_append, List.map_append, ih, List.filter_append, List.flatMap_append]
    congr 1
    by_cases hagent : e.agent = agent
    · have hmine : [e].filter (fun e => e.agent == agent) = [e] := by simp [hagent]
      rw [if_pos hagent, hmine, List.map_replicate, List.flatMap_singleton]
      rfl
    · have hnone : [e].filter (fun e => e.agent == agent) = [] := by simp [hagent]
      rw [if_neg hagent, hnone]
      rfl

/-- The query over the tables is the recall from the list of what was appended. -/
theorem newest_eq_recent : (tables es).newest agent limit = (Memory.mk es).recent agent limit := by
  rw [newest, newest_chosen, List.take_reverse, List.map_reverse, List.reverse_reverse, List.map_drop,
    ← List.length_map (fun p => p.1.entry), entries_chosen]
  rfl

theorem length_filter_le_length_flatMap_replicate {α : Type} (count : α → Nat) (l : List α) :
    (l.filter fun a => 0 < count a).length ≤ (l.flatMap fun a => List.replicate (count a) a).length := by
  induction l with
  | nil => exact Nat.le_refl 0
  | cons a l ih =>
    rw [List.flatMap_cons, List.length_append, List.length_replicate, List.filter_cons]
    split
    · rename_i hpos
      have hcount : 0 < count a := of_decide_eq_true hpos
      rw [List.length_cons]
      omega
    · omega

/-- Items that are repeated as often as they count are those that count, each once, where none counts twice. -/
theorem flatMap_replicate_eq_filter_iff {α : Type} (count : α → Nat) (l : List α) :
    (l.flatMap fun a => List.replicate (count a) a) = l.filter (fun a => 0 < count a) ↔
      ∀ a ∈ l, count a ≤ 1 := by
  constructor
  · intro h
    -- only the lengths are kept, since the induction cannot carry that the heads agree
    have hlength := congrArg List.length h
    clear h
    induction l with
    | nil => exact List.forall_mem_nil _
    | cons a l ih =>
      have htail := length_filter_le_length_flatMap_replicate count l
      rw [List.flatMap_cons, List.length_append, List.length_replicate, List.filter_cons] at hlength
      split at hlength
      · rename_i hpos
        have hcount : 0 < count a := of_decide_eq_true hpos
        rw [List.length_cons] at hlength
        exact List.forall_mem_cons.2 ⟨by omega, ih (by omega)⟩
      · exact List.forall_mem_cons.2 ⟨by omega, ih (by omega)⟩
  · intro h
    induction l with
    | nil => rfl
    | cons a l ih =>
      obtain ⟨ha, hl⟩ := List.forall_mem_cons.1 h
      rw [List.flatMap_cons, ih hl, List.filter_cons]
      rcases Nat.le_one_iff_eq_zero_or_eq_one.1 ha with hzero | hone
      · rw [hzero]
        rfl
      · rw [hone]
        rfl

theorem lastItems_eq_self {α : Type} {limit : Nat} {l : List α} (h : l.length ≤ limit) :
    Hierarchy.lastItems limit l = l := by
  rw [Hierarchy.lastItems, Nat.sub_eq_zero_of_le h, List.drop_zero]

/-- Of the entries that were appended, the query recalls the newest long-term ones of the agent, as often as they
carry the tag, whatever the limit. It recalls each of them once if none carries it twice, and only then. -/
theorem recall_tables :
    (∀ limit, (tables es).newest agent limit = (Memory.mk es).recent agent limit) ∧
      ((∀ limit, (tables es).newest agent limit = (Memory.mk es).recentOnce agent limit) ↔
        ∀ e ∈ es, e.agent = agent → e.tags.count longTermTag ≤ 1) := by
  have hrecall := fun limit => newest_eq_recent es agent limit
  refine ⟨hrecall, ?_⟩
  have htagged : ((Memory.mk es).ofAgent agent).filter (fun e => e.hasTag longTermTag) =
      ((Memory.mk es).ofAgent agent).filter fun e => 0 < e.tags.count longTermTag := by
    refine List.filter_congr fun e _ => ?_
    rw [MemoryEntry.hasTag, List.contains_eq_mem]
    exact decide_eq_decide.2 List.count_pos_iff.symm
  have honce := flatMap_replicate_eq_filter_iff (fun e : MemoryEntry => e.tags.count longTermTag)
    ((Memory.mk es).ofAgent agent)
  rw [← htagged] at honce
  have hagents : (∀ e ∈ (Memory.mk es).ofAgent agent, e.tags.count longTermTag ≤ 1) ↔
      ∀ e ∈ es, e.agent = agent → e.tags.count longTermTag ≤ 1 := by
    simp only [ofAgent, List.mem_filter, beq_iff_eq, and_imp]
  rw [← hagents, ← honce]
  constructor
  · intro h
    -- a limit beyond both lists cuts off nothing
    have hall := (hrecall _).symm.trans (h (max
      (((Memory.mk es).ofAgent agent).flatMap fun e => List.replicate (e.tags.count longTermTag) e).length
      (((Memory.mk es).ofAgent agent).filter fun e => e.hasTag longTermTag).length))
    rwa [recent, recentOnce, lastItems_eq_self (Nat.le_max_left _ _), lastItems_eq_self (Nat.le_max_right _ _)]
      at hall
  · intro h limit
    rw [hrecall, recent, recentOnce, h]

/-! ## A tag that is carried twice -/

namespace Notebook

def note (content : String) (tags : List String) : MemoryEntry :=
  ⟨"ada", "ada", content, tags, none, default⟩

def early : MemoryEntry := note "the key is under the mat" [longTermTag]

/-- A note that was marked twice for the long-term memory. -/
def late : MemoryEntry := note "the door is green" [longTermTag, longTermTag]

end Notebook

/-- There is room for two notes, and the late one takes both places. -/
theorem Notebook.early_forgotten :
    (tables [Notebook.early, Notebook.late]).newest "ada" 2 = [Notebook.late, Notebook.late] ∧
      (Memory.mk [Notebook.early, Notebook.late]).recentOnce "ada" 2 = [Notebook.early, Notebook.late] := by
  rw [newest_eq_recent]
  decide

end Playbook.Memory
