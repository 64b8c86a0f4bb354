/-! # Ordered dictionaries

Dictionaries keyed by text, kept in the order of their keys: code point by code point, which is also
the order of the keys' bytes. `Fields` holds the operations on bare lists of pairs, as they occur
inside nested values, and `Dict` packs such a list with the proof that it is strictly ordered.

Main statements: `Dict.get?_insert_self` and `Dict.get?_insert_of_ne` say what an insertion does to
each key, and `Dict.ext_get?` that a dictionary is determined by what its keys answer.
-/

namespace Playbook

/-! ## Lists of fields -/

namespace Fields

variable {α β : Type}

/-- The value of the first field with this key. -/
def get? (key : String) : List (String × α) → Option α
  | [] => none
  | (k, v) :: rest => if k = key then some v else get? key rest

/-- Puts a field at its place in the order of keys, replacing the one that had the key. -/
def insert (key : String) (value : α) : List (String × α) → List (String × α)
  | [] => [(key, value)]
  | (k, v) :: rest =>
    if key < k then (key, value) :: (k, v) :: rest
    else if key = k then (key, value) :: rest
    else (k, v) :: insert key value rest

/-- Removes every field with this key. -/
def erase (key : String) (fields : List (String × α)) : List (String × α) :=
  fields.filter (fun f => f.1 != key)

/-- The keys increase strictly. -/
def Sorted (fields : List (String × α)) : Prop :=
  fields.Pairwise (fun a b => a.1 < b.1)

theorem mem_insert {key : String} {value : α} {f : String × α} {fields : List (String × α)}
    (h : f ∈ insert key value fields) : f = (key, value) ∨ f ∈ fields := by
  induction fields with
  | nil => simpa [insert] using h
  | cons head rest ih =>
    obtain ⟨k, v⟩ := head
    unfold insert at h
    split at h
    · simpa using h
    · split at h
      · rcases List.mem_cons.1 h with h | h
        · exact Or.inl h
        · exact Or.inr (List.mem_cons_of_mem _ h)
      · rcases List.mem_cons.1 h with h | h
        · exact Or.inr (h ▸ List.mem_cons_self)
        · exact (ih h).imp id (List.mem_cons_of_mem _)

theorem sorted_insert (key : String) (value : α) {fields : List (String × α)}
    (h : Sorted fields) : Sorted (insert key value fields) := by
  induction fields with
  | nil => simp [insert, Sorted]
  | cons head rest ih =>
    obtain ⟨k, v⟩ := head
    obtain ⟨hhead, hrest⟩ := List.pairwise_cons.1 h
    unfold insert
    split
    · rename_i hlt
      refine List.pairwise_cons.2 ⟨fun b hb => ?_, h⟩
      rcases List.mem_cons.1 hb with rfl | hb
      · exact hlt
      · exact String.lt_trans hlt (hhead b hb)
    · split
      · rename_i heq
        subst heq
        exact List.pairwise_cons.2 ⟨hhead, hrest⟩
      · rename_i hnlt hne
        refine List.pairwise_cons.2 ⟨fun b hb => ?_, ih hrest⟩
        rcases mem_insert hb with rfl | hb
        · rcases String.le_total k key with hle | hle
          · exact Std.lt_of_le_of_ne hle (Ne.symm hne)
          · exact absurd (Std.lt_of_le_of_ne hle hne) hnlt
        · exact hhead b hb

theorem sorted_erase (key : String) {fields : List (String × α)} (h : Sorted fields) :
    Sorted (erase key fields) :=
  List.Pairwise.sublist List.filter_sublist h

@[simp] theorem get?_insert_self (key : String) (value : α) (fields : List (String × α)) :
    get? key (insert key value fields) = some value := by
  induction fields with
  | nil => simp [insert, get?]
  | cons head rest ih =>
    obtain ⟨k, v⟩ := head
    unfold insert
    split
    · simp [get?]
    · split
      · simp [get?]
      · rename_i hne
        simp [get?, Ne.symm hne, ih]

theorem get?_insert_of_ne {key other : String} (hne : other ≠ key) (value : α)
    (fields : List (String × α)) : get? other (insert key value fields) = get? other fields := by
  induction fields with
  | nil => simp [insert, get?, Ne.symm hne]
  | cons head rest ih =>
    obtain ⟨k, v⟩ := head
    unfold insert
    split
    · simp [get?, Ne.symm hne]
    · split
      · rename_i heq
        subst heq
        simp [get?, Ne.symm hne]
      · simp [get?, ih]

/-- The value of a key is one of the fields. -/
theorem mem_of_get? {key : String} {value : α} {fields : List (String × α)}
    (h : get? key fields = some value) : (key, value) ∈ fields := by
  induction fields with
  | nil => simp [get?] at h
  | cons head rest ih =>
    obtain ⟨k, v⟩ := head
    unfold get? at h
    split at h
    · rename_i heq
      simp_all
    · exact List.mem_cons_of_mem _ (ih h)

/-- In an ordered list each field is what its key answers. -/
theorem get?_of_mem {key : String} {value : α} {fields : List (String × α)} (hs : Sorted fields)
    (h : (key, value) ∈ fields) : get? key fields = some value := by
  induction fields with
  | nil => simp at h
  | cons head rest ih =>
    obtain ⟨k, v⟩ := head
    obtain ⟨hhead, hrest⟩ := List.pairwise_cons.1 hs
    rcases List.mem_cons.1 h with h | h
    · cases h
      simp [get?]
    · have hne : k ≠ key := fun heq => by
        have := hhead _ h
        exact String.lt_irrefl _ (heq ▸ this)
      simp [get?, hne, ih hrest h]

/-- Two ordered lists that answer alike at every key are equal. -/
theorem ext_get? {a b : List (String × α)} (ha : Sorted a) (hb : Sorted b)
    (h : ∀ key, get? key a = get? key b) : a = b := by
  induction a generalizing b with
  | nil =>
    cases b with
    | nil => rfl
    | cons head rest =>
      have := h head.1
      simp [get?] at this
  | cons head rest ih =>
    obtain ⟨k, v⟩ := head
    obtain ⟨hhead, hrest⟩ := List.pairwise_cons.1 ha
    cases b with
    | nil =>
      have := h k
      simp [get?] at this
    | cons head' rest' =>
      obtain ⟨k', v'⟩ := head'
      obtain ⟨hhead', hrest'⟩ := List.pairwise_cons.1 hb
      have hk : k = k' := by
        have hmem : (k', v') ∈ (k, v) :: rest :=
          mem_of_get? ((h k').trans (get?_of_mem hb List.mem_cons_self))
        have hmem' : (k, v) ∈ (k', v') :: rest' :=
          mem_of_get? ((h k).symm.trans (get?_of_mem ha List.mem_cons_self))
        rcases List.mem_cons.1 hmem with heq | hin
        · exact (Prod.mk.inj heq).1.symm
        · rcases List.mem_cons.1 hmem' with heq | hin'
          · exact (Prod.mk.inj heq).1
          · exact absurd (String.lt_trans (hhead _ hin) (hhead' _ hin')) (String.lt_irrefl _)
      subst hk
      have hv : v = v' := by
        have := h k
        simpa [get?] using this
      subst hv
      congr 1
      refine ih hrest hrest' fun key => ?_
      by_cases hkey : k = key
      · subst hkey
        have hout : ∀ {l : List (String × α)}, (∀ b ∈ l, k < b.1) → get? k l = none := by
          intro l hl
          cases hg : get? k l with
          | none => rfl
          | some w => exact absurd (hl _ (mem_of_get? hg)) (String.lt_irrefl _)
        rw [hout hhead, hout hhead']
      · have := h key
        simpa [get?, hkey] using this

/-- Applies a function to each value and leaves the keys. -/
def mapValues (f : α → β) (fields : List (String × α)) : List (String × β) :=
  fields.map (fun p => (p.1, f p.2))

theorem sorted_mapValues (f : α → β) {fields : List (String × α)} (h : Sorted fields) :
    Sorted (mapValues f fields) :=
  List.pairwise_map.2 h

end Fields

/-! ## Dictionaries -/

/-- A finite map from text to values, listed in the order of its keys. -/
structure Dict (α : Type) where
  entries : List (String × α)
  sorted : Fields.Sorted entries
  deriving DecidableEq, Repr

namespace Dict

variable {α β : Type}

/-- The dictionary without keys. -/
def empty : Dict α := ⟨[], List.Pairwise.nil⟩

instance : Inhabited (Dict α) := ⟨empty⟩

def get? (d : Dict α) (key : String) : Option α := Fields.get? key d.entries

def contains (d : Dict α) (key : String) : Bool := (d.get? key).isSome

def insert (d : Dict α) (key : String) (value : α) : Dict α :=
  ⟨Fields.insert key value d.entries, Fields.sorted_insert key value d.sorted⟩

def erase (d : Dict α) (key : String) : Dict α :=
  ⟨Fields.erase key d.entries, Fields.sorted_erase key d.sorted⟩

/-- Inserts the pairs from left to right: the last value of a key stays. -/
def ofList (pairs : List (String × α)) : Dict α :=
  pairs.foldl (fun d p => d.insert p.1 p.2) empty

def keys (d : Dict α) : List String := d.entries.map (·.1)

def values (d : Dict α) : List α := d.entries.map (·.2)

def size (d : Dict α) : Nat := d.entries.length

def isEmpty (d : Dict α) : Bool := d.entries.isEmpty

def mapValues (f : α → β) (d : Dict α) : Dict β :=
  ⟨Fields.mapValues f d.entries, Fields.sorted_mapValues f d.sorted⟩

/-- Applies a function to the value of one key, if the key is there. -/
def modify (d : Dict α) (key : String) (f : α → α) : Dict α :=
  match d.get? key with
  | some v => d.insert key (f v)
  | none => d

@[simp] theorem get?_empty (key : String) : (empty : Dict α).get? key = none := rfl

@[simp] theorem get?_insert_self (d : Dict α) (key : String) (value : α) :
    (d.insert key value).get? key = some value :=
  Fields.get?_insert_self key value d.entries

theorem get?_insert_of_ne (d : Dict α) {key other : String} (h : other ≠ key) (value : α) :
    (d.insert key value).get? other = d.get? other :=
  Fields.get?_insert_of_ne h value d.entries

/-- A dictionary is determined by what its keys answer. -/
theorem ext_get? {a b : Dict α} (h : ∀ key, a.get? key = b.get? key) : a = b := by
  cases a with
  | mk ea ha =>
    cases b with
    | mk eb hb =>
      have : ea = eb := Fields.ext_get? ha hb h
      subst this
      rfl

end Dict

end Playbook
