import Playbook.Memory

/-! # The tables of the memory

A memory on disk is two tables: the entries under numbers that count up, and the tags, one row for each time that
an entry carries one, with the number of the entry. What is recalled is found in their join.

Main definitions: `Tables.append` writes the rows of an entry, and `Tables.newest` is the query for the newest
long-term entries of an agent.
-/

namespace Playbook.Memory

/-- An entry with its number. -/
structure EntryRow where
  number : Nat
  entry : MemoryEntry
  deriving DecidableEq, Repr

/-- A tag that the entry with this number carries. -/
structure TagRow where
  number : Nat
  tag : String
  deriving DecidableEq, Repr

/-- Both tables. No number goes beyond that of the entry written last. -/
structure Tables where
  entries : List EntryRow
  tags : List TagRow
  entries_le : ∀ row ∈ entries, row.number ≤ entries.length
  tags_le : ∀ row ∈ tags, row.number ≤ entries.length

namespace Tables

def empty : Tables := ⟨[], [], List.forall_mem_nil _, List.forall_mem_nil _⟩

/-- Writes an entry under the next number, and a row for each of its tags. -/
def append (t : Tables) (e : MemoryEntry) : Tables where
  entries := t.entries ++ [⟨t.entries.length + 1, e⟩]
  tags := t.tags ++ e.tags.map fun tag => ⟨t.entries.length + 1, tag⟩
  entries_le row h := by
    rw [List.length_append, List.length_singleton]
    rcases List.mem_append.1 h with h | h
    · exact Nat.le_succ_of_le (t.entries_le row h)
    · cases List.mem_singleton.1 h
      exact Nat.le_refl _
  tags_le row h := by
    rw [List.length_append, List.length_singleton]
    rcases List.mem_append.1 h with h | h
    · exact Nat.le_succ_of_le (t.tags_le row h)
    · obtain ⟨_, _, rfl⟩ := List.mem_map.1 h
      exact Nat.le_refl _

/-- Every entry with every row of its number in the table of tags. -/
def joined (t : Tables) : List (EntryRow × TagRow) :=
  t.entries.flatMap fun row => (t.tags.filter fun tag => tag.number == row.number).map fun tag => (row, tag)

/-- The rows of the join that belong to an agent and to the long-term memory. -/
def chosen (t : Tables) (agent : String) : List (EntryRow × TagRow) :=
  t.joined.filter fun p => p.1.entry.agent == agent && p.2.tag == longTermTag

/-- The newest long-term entries of an agent: the chosen rows with the greatest numbers, turned round. -/
def newest (t : Tables) (agent : String) (limit : Nat) : List MemoryEntry :=
  let newestFirst := (t.chosen agent).mergeSort fun p q => q.1.number ≤ p.1.number
  ((newestFirst.take limit).map fun p => p.1.entry).reverse

end Tables

/-- The tables after some appends. -/
def tables (es : List MemoryEntry) : Tables := es.foldl Tables.append Tables.empty

end Playbook.Memory
