import Mathlib.Algebra.Group.Nat.Defs
import Mathlib.Data.List.Forall2
import Playbook.Json.Record
import Playbook.Proofs.Dict

/-! # Reading back what was written

When a reader undoes a writer, so do the readers of lists, of dictionaries and of what may be absent. A record
that was written with names answers each name with what was written for it last, and its fields are read
from these answers.

Main statements: `Json.record?_ofFields`, `Json.nullable_ofOption`, `Json.listOf?_map` and
`Json.dictOf?_mapValues`.
-/

namespace Playbook

/-! ## Readers -/

namespace Json

variable {α : Type} {write : α → Json} {read : Json → Option α}

/-- An object answers as a record at each of its fields. -/
theorem record?_ofFields (names : List String) (fields : List (String × Json)) :
    (ofFields fields).record? names = some ⟨fun key => Fields.get? key fields.reverse, false⟩ := by
  have hlook : (fun key => Fields.get? key (Dict.ofList fields).entries) =
      fun key => Fields.get? key fields.reverse := by
    funext key
    exact Dict.get?_ofList fields key
  rw [← hlook]
  rfl

theorem eq_str_of_str? {v : Json} {s : String} (h : v.str? = some s) : v = .str s := by
  cases v <;> cases h
  rfl

theorem toWord?_int {n : Nat} (h : n < 2 ^ 64) : toWord? (.int n) = some n := by
  have hbound : (n : Int) < ((0x10000000000000000 : Nat) : Int) := by
    exact_mod_cast h
  simp only [toWord?, toCount?, Int.natCast_nonneg, decide_true, hbound, Bool.and_self, if_true,
    Int.toNat_natCast]

/-- What may be absent is read back, if nothing that is there is written like its absence. -/
theorem nullable_ofOption (hnull : ∀ a, write a ≠ .null) {o : Option α}
    (h : ∀ a ∈ o, read (write a) = some a) : nullable read (ofOption write o) = some o := by
  cases o with
  | none => rfl
  | some a =>
    have hread : read (write a) = some a := h a rfl
    -- only null is taken for an absence, and nothing that is there is written as null
    rw [ofOption]
    cases hw : write a with
    | null => exact absurd hw (hnull a)
    | _ => simp only [nullable, ← hw, hread, Option.map_some]

/-- What is undone for each item is undone for the list. -/
theorem mapM_map_eq_some {β : Type} {f : α → β} {g : β → Option α} {l : List α}
    (h : ∀ a ∈ l, g (f a) = some a) : (l.map f).mapM g = some l := by
  induction l with
  | nil => rfl
  | cons a l ih =>
    have hread : g (f a) = some a := h a List.mem_cons_self
    have hrest : (l.map f).mapM g = some l := ih fun b hb => h b (List.mem_cons_of_mem a hb)
    rw [List.map_cons, List.mapM_cons, hread, hrest]
    rfl

/-- A list is read back item by item. -/
theorem listOf?_map {l : List α} (h : ∀ a ∈ l, read (write a) = some a) :
    listOf? read (.arr (l.map write)) = some l :=
  mapM_map_eq_some h

/-- The items of a list are read one by one. -/
theorem forall₂_of_mapM_eq_some {β : Type} {g : β → Option α} {l : List β} {l' : List α} (h : l.mapM g = some l') :
    List.Forall₂ (fun b a => g b = some a) l l' := by
  induction l generalizing l' with
  | nil =>
    cases h
    exact .nil
  | cons b l ih =>
    simp only [List.mapM_cons, Option.bind_eq_bind, Option.bind_eq_some_iff, Option.pure_def,
      Option.some.injEq] at h
    obtain ⟨a, ha, rest, hrest, rfl⟩ := h
    exact .cons ha (ih hrest)

theorem exists_of_mapM_eq_some {β : Type} {g : β → Option α} {l : List β} {l' : List α} (h : l.mapM g = some l')
    {a : α} (ha : a ∈ l') : ∃ b ∈ l, g b = some a := by
  obtain ⟨hlength, hread⟩ := List.forall₂_iff_get.1 (forall₂_of_mapM_eq_some h)
  obtain ⟨i, rfl⟩ := List.mem_iff_get.1 ha
  have hi : i.1 < l.length := by
    rw [hlength]
    exact i.2
  exact ⟨l.get ⟨i, hi⟩, List.get_mem l ⟨i, hi⟩, hread i hi i.2⟩

/-- Each item of a list that was read has been read itself. -/
theorem exists_of_listOf?_eq_some {v : Json} {l : List α} (h : listOf? read v = some l) {a : α} (ha : a ∈ l) :
    ∃ u, read u = some a := by
  cases v with
  | arr items =>
    obtain ⟨u, -, hu⟩ := exists_of_mapM_eq_some (g := read) h ha
    exact ⟨u, hu⟩
  | _ => cases h

/-- A dictionary is read back value by value. -/
theorem dictOf?_mapValues {d : Dict α} (h : ∀ key a, d.get? key = some a → read (write a) = some a) :
    dictOf? read (.ofDict (d.mapValues write)) = some d := by
  have hread : ∀ f ∈ d.entries, ((read (write f.2)).map fun v => (f.1, v)) = some f := by
    intro f hf
    rw [h f.1 f.2 (Dict.mem_entries_iff.1 hf), Option.map_some]
  have hpairs : (d.entries.map fun f => (f.1, write f.2)).mapM
      (fun f => (read f.2).map fun v => (f.1, v)) = some d.entries :=
    mapM_map_eq_some hread
  show ((d.entries.map fun f => (f.1, write f.2)).mapM
      (fun f => (read f.2).map fun v => (f.1, v))).bind (fun pairs => some (Dict.ofList pairs)) = some d
  rw [hpairs, Option.bind_some, Dict.ofList_entries]

end Json

/-! ## Fields -/

namespace Record

variable {α : Type} {r : Record} {name : String} {v : Json} {read : Json → Option α}

theorem required_of_look (h : r.look name = some v) : r.required name read = read v := by
  rw [required, h, Option.bind_some]

theorem defaulted_of_look (h : r.look name = some v) (default : α) :
    r.defaulted name read default = read v := by
  rw [defaulted, h]

theorem defaulted_of_look_none (h : r.look name = none) (default : α) :
    r.defaulted name read default = some default := by
  rw [defaulted, h]

theorem optionalByName_of_look (h : r.look name = some v) :
    r.optionalByName name read = Json.nullable read v := by
  rw [optionalByName, h]

/-- A field that is written only if there is something to write. -/
theorem optional_of_look {write : α → Json} {o : Option α} (hnull : ∀ a, write a ≠ .null)
    (hread : ∀ a ∈ o, read (write a) = some a) (h : r.look name = o.map write) :
    r.optional name read = some o := by
  cases o with
  | none => exact defaulted_of_look_none h none
  | some a =>
    have hwritten : r.optional name read = Json.nullable read (write a) := defaulted_of_look h none
    rw [hwritten]
    exact Json.nullable_ofOption (o := some a) hnull hread

theorem exists_of_defaulted_listOf? {l : List α} (h : r.defaulted name (Json.listOf? read) [] = some l) {a : α}
    (ha : a ∈ l) : ∃ u, read u = some a := by
  unfold defaulted at h
  split at h
  · exact Json.exists_of_listOf?_eq_some h ha
  · cases h
    nomatch ha

/-- A value that is kept as it is can be told from its absence unless it is null. -/
theorem optional_of_ne_null {o : Option Json} (ho : o ≠ some .null) (h : r.look name = o) :
    r.optional name some = some o := by
  cases o with
  | none => exact defaulted_of_look_none h none
  | some v =>
    rw [optional, defaulted_of_look h]
    cases v with
    | null => exact absurd rfl ho
    | _ => rfl

/-- Null is read as the absence of a value. -/
theorem ne_null_of_optional {o : Option Json} (h : r.optional name some = some o) : o ≠ some .null := by
  rintro rfl
  unfold optional defaulted at h
  split at h
  · rename_i v _
    cases v <;> cases h
  · cases h

end Record

end Playbook
