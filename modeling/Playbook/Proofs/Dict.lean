import Mathlib.Data.List.Induction
import Mathlib.Data.List.Perm.Subperm
import Playbook.Dict

/-! # Keys and values of dictionaries

What the lists of keys, values and entries of a dictionary hold, in terms of the answers of its keys, and
what a modification does to each answer. `length_le_size` bounds every list of distinct keys by the
size of the dictionary, `keys_ofList_of_sorted` says that pairs in order keep their keys, and `get?_ofList`
which of several pairs with one key is kept.
-/

namespace Playbook

namespace Dict

variable {α : Type}

/-! ## Answers and lists -/

theorem mem_entries_iff {d : Dict α} {key : String} {value : α} :
    (key, value) ∈ d.entries ↔ d.get? key = some value :=
  ⟨Fields.get?_of_mem d.sorted, Fields.mem_of_get?⟩

theorem mem_values_iff {d : Dict α} {value : α} :
    value ∈ d.values ↔ ∃ key, d.get? key = some value := by
  constructor
  · intro h
    rcases List.mem_map.1 h with ⟨⟨key, v⟩, hmem, rfl⟩
    exact ⟨key, mem_entries_iff.1 hmem⟩
  · rintro ⟨key, h⟩
    exact List.mem_map.2 ⟨(key, value), mem_entries_iff.2 h, rfl⟩

theorem mem_keys_iff {d : Dict α} {key : String} : key ∈ d.keys ↔ (d.get? key).isSome = true := by
  constructor
  · intro h
    rcases List.mem_map.1 h with ⟨⟨k, v⟩, hmem, rfl⟩
    rw [mem_entries_iff.1 hmem]
    rfl
  · intro h
    rcases Option.isSome_iff_exists.1 h with ⟨v, hv⟩
    exact List.mem_map.2 ⟨(key, v), mem_entries_iff.2 hv, rfl⟩

/-- There are at most as many distinct keys as the dictionary has entries. -/
theorem length_le_size {d : Dict α} {names : List String} (hnd : names.Nodup)
    (hin : ∀ key ∈ names, (d.get? key).isSome = true) : names.length ≤ d.size := by
  have hsub : names ⊆ d.keys := fun key hkey => mem_keys_iff.2 (hin key hkey)
  have hle : names.length ≤ d.keys.length := (hnd.subperm hsub).length_le
  rwa [keys, List.length_map] at hle

/-! ## Modifications -/

theorem get?_insert (d : Dict α) (key other : String) (value : α) :
    (d.insert key value).get? other = if other = key then some value else d.get? other := by
  by_cases h : other = key
  · rw [if_pos h, h, get?_insert_self]
  · rw [if_neg h, get?_insert_of_ne d h]

theorem get?_modify (d : Dict α) (key other : String) (f : α → α) :
    (d.modify key f).get? other =
      if other = key then (d.get? other).map f else d.get? other := by
  unfold modify
  cases hkey : d.get? key with
  | none =>
    by_cases h : other = key
    · rw [if_pos h, h, hkey]
      rfl
    · rw [if_neg h]
  | some v =>
    rw [get?_insert]
    by_cases h : other = key
    · rw [if_pos h, if_pos h, h, hkey]
      rfl
    · rw [if_neg h, if_neg h]

end Dict

/-! ## Lists of pairs -/

namespace Fields

variable {α : Type}

/-- Behind smaller keys a field is put at the end. -/
theorem insert_of_forall_lt {key : String} {value : α} {fields : List (String × α)}
    (h : ∀ f ∈ fields, f.1 < key) : insert key value fields = fields ++ [(key, value)] := by
  induction fields with
  | nil => rfl
  | cons head rest ih =>
    rcases head with ⟨k, v⟩
    have hk : k < key := h _ List.mem_cons_self
    have hnlt : ¬ key < k := fun hlt => String.lt_irrefl _ (String.lt_trans hlt hk)
    have hne : key ≠ k := fun heq => String.lt_irrefl _ (heq ▸ hk)
    unfold insert
    rw [if_neg hnlt, if_neg hne, ih fun f hf => h f (List.mem_cons_of_mem _ hf)]
    rfl

/-- Fields in front of others answer first. -/
@[simp] theorem get?_append (key : String) (fields rest : List (String × α)) :
    get? key (fields ++ rest) = (get? key fields).or (get? key rest) := by
  induction fields with
  | nil => rfl
  | cons head fields ih =>
    rcases head with ⟨k, v⟩
    rw [List.cons_append, get?, get?, ih]
    split <;> rfl

/-- Behind fields with other keys a field answers as it would alone. -/
theorem get?_append_of_ne {key : String} {fields rest : List (String × α)}
    (h : ∀ f ∈ fields, f.1 ≠ key) : get? key (fields ++ rest) = get? key rest := by
  have hnone : get? key fields = none :=
    Option.eq_none_iff_forall_ne_some.2 fun value hvalue => h _ (mem_of_get? hvalue) rfl
  rw [get?_append, hnone, Option.none_or]

end Fields

namespace Dict

variable {α β : Type}

/-- Pairs in the order of their keys are the entries of their dictionary. -/
theorem entries_ofList_of_sorted {pairs : List (String × α)} (h : Fields.Sorted pairs) :
    (ofList pairs).entries = pairs := by
  -- the pairs that are already in stand before those that follow
  suffices hgo : ∀ (rest : List (String × α)) (d : Dict α), Fields.Sorted (d.entries ++ rest) →
      (rest.foldl (fun d p => d.insert p.1 p.2) d).entries = d.entries ++ rest by
    exact hgo pairs empty h
  intro rest
  induction rest with
  | nil =>
    intro d _
    exact (List.append_nil _).symm
  | cons p rest ih =>
    intro d hs
    have hlt : ∀ f ∈ d.entries, f.1 < p.1 := fun f hf =>
      (List.pairwise_append.1 hs).2.2 f hf p List.mem_cons_self
    have hput : (d.insert p.1 p.2).entries = d.entries ++ [p] :=
      Fields.insert_of_forall_lt hlt
    rw [List.foldl_cons, ih _ (by rw [hput, List.append_assoc]; exact hs), hput,
      List.append_assoc]
    rfl

theorem keys_ofList_of_sorted {pairs : List (String × α)} (h : Fields.Sorted pairs) :
    (ofList pairs).keys = pairs.map (·.1) := by
  rw [keys, entries_ofList_of_sorted h]

/-- A dictionary made of pairs has the keys of the pairs. -/
theorem mem_keys_ofList {pairs : List (String × α)} {key : String} :
    key ∈ (ofList pairs).keys ↔ key ∈ pairs.map (·.1) := by
  -- for pairs that are put into any dictionary
  suffices hgo : ∀ (pairs : List (String × α)) (d : Dict α),
      key ∈ (pairs.foldl (fun d p => d.insert p.1 p.2) d).keys ↔
        key ∈ d.keys ∨ key ∈ pairs.map (·.1) by
    rw [ofList, hgo]
    simp [keys, empty]
  intro pairs
  induction pairs with
  | nil => simp
  | cons p rest ih =>
    intro d
    have hput : key ∈ (d.insert p.1 p.2).keys ↔ key = p.1 ∨ key ∈ d.keys := by
      rw [mem_keys_iff, mem_keys_iff, get?_insert]
      by_cases hk : key = p.1 <;> simp [hk]
    rw [List.foldl_cons, ih, hput, List.map_cons, List.mem_cons]
    constructor
    · rintro ((hk | hk) | hk)
      · exact Or.inr (Or.inl hk)
      · exact Or.inl hk
      · exact Or.inr (Or.inr hk)
    · rintro (hk | hk | hk)
      · exact Or.inl (Or.inr hk)
      · exact Or.inl (Or.inl hk)
      · exact Or.inr hk

/-- The last pair with a key is the one that stays. -/
theorem get?_ofList (pairs : List (String × α)) (key : String) :
    (ofList pairs).get? key = Fields.get? key pairs.reverse := by
  induction pairs using List.reverseRecOn with
  | nil => rfl
  | append_singleton pairs p ih =>
    have hput : ofList (pairs ++ [p]) = (ofList pairs).insert p.1 p.2 := by
      rw [ofList, List.foldl_append]
      rfl
    rw [hput, get?_insert, List.reverse_append, ih]
    by_cases hk : key = p.1
    · rw [if_pos hk]
      simp [Fields.get?, hk]
    · rw [if_neg hk]
      simp [Fields.get?, Ne.symm hk]

/-- A dictionary is made of its own entries. -/
theorem ofList_entries (d : Dict α) : ofList d.entries = d := by
  have hentries : (ofList d.entries).entries = d.entries := entries_ofList_of_sorted d.sorted
  rcases hl : ofList d.entries with ⟨entries, hsorted⟩
  rw [hl] at hentries
  cases d
  cases hentries
  rfl

theorem get?_mapValues (f : α → β) (d : Dict α) (key : String) :
    (d.mapValues f).get? key = (d.get? key).map f := by
  have hfields : ∀ fields : List (String × α),
      Fields.get? key (Fields.mapValues f fields) = (Fields.get? key fields).map f := by
    intro fields
    induction fields with
    | nil => rfl
    | cons p rest ih =>
      by_cases hp : p.1 = key
      · simp [Fields.mapValues, Fields.get?, hp]
      · simpa [Fields.mapValues, Fields.get?, hp] using ih
  exact hfields d.entries

/-- Dictionaries that have the same keys list them alike. -/
theorem keys_congr {a : Dict α} {b : Dict β} (h : ∀ key, b.contains key = a.contains key) :
    b.keys = a.keys := by
  have hkeys : ∀ {γ : Type} (d : Dict γ), (d.mapValues fun _ => ()).keys = d.keys := fun d => List.map_map
  have hsame : b.mapValues (fun _ => ()) = a.mapValues fun _ => () := by
    refine ext_get? fun key => ?_
    rw [get?_mapValues, get?_mapValues]
    have hsome : (b.get? key).isSome = (a.get? key).isSome := h key
    cases hb : b.get? key <;> cases ha : a.get? key <;> simp_all
  rw [← hkeys a, ← hkeys b, hsame]

/-- The entries are among the pairs. -/
theorem mem_of_mem_ofList {pairs : List (String × α)} {f : String × α} (h : f ∈ (ofList pairs).entries) :
    f ∈ pairs := by
  have hget : (ofList pairs).get? f.1 = some f.2 := mem_entries_iff.1 h
  rw [get?_ofList] at hget
  exact List.mem_reverse.1 (Fields.mem_of_get? hget)

end Dict

end Playbook
