import Mathlib.Data.List.Forall2
import Playbook.Proofs.Dict
import Playbook.Proofs.Node

/-! # Resolving arguments

An argument is resolved text by text. A text that is one placeholder gives way to the value at its path, every
other one to its rendering, and all that is no text stays.

Main statements: `resolve_eq_ok` says what an argument resolves to and `resolve_eq_error` why it does not, both for
arguments of any depth; `resolveArgs_error` and `keys_resolveArgs` say so of the arguments of a call, and
`resolve_by_texts` puts together what holds of every value.
-/

namespace Playbook.Template

variable {r : Region} {cause : Error}

/-! ## The texts of a value -/

mutual

/-- The texts inside a value, in the order in which they are resolved. -/
def texts : Json → List String
  | .str source => [source]
  | .arr items => itemTexts items
  | .obj fields => fieldTexts fields
  | _ => []

def itemTexts : List Json → List String
  | [] => []
  | v :: vs => texts v ++ itemTexts vs

def fieldTexts : List (String × Json) → List String
  | [] => []
  | (_, v) :: fs => texts v ++ fieldTexts fs

end

/-! ## One text -/

/-- What a text resolves to. If it is one placeholder, this is the value at its path, and else the text that it is
rendered to; either way it is displayed as that text. -/
structure ResolvedText (r : Region) (source : String) (v : Json) : Prop where
  whole : ∀ path, IsSpelled path → source.toList = braced path → r.lookup? path = some v
  mixed : (¬ ∃ path, IsSpelled path ∧ source.toList = braced path) → ∃ t, render r source = .ok t ∧ v = .str t
  displayed : render r source = .ok v.display

/-- A text resolves to what it says, or to what it refers to. -/
theorem resolveText_eq_ok {source : String} {v : Json} :
    resolveText r source = .ok v ↔ ResolvedText r source v := by
  unfold resolveText
  -- a text that is one placeholder gives the value itself, and any other a text
  cases hsole : solePath? source with
  | none =>
    have hnone : ¬ ∃ path, IsSpelled path ∧ source.toList = braced path := by
      rintro ⟨path, h⟩
      rw [solePath?_eq_some.2 h] at hsole
      cases hsole
    simp only
    rw [Checked.map_eq_ok]
    constructor
    · rintro ⟨t, ht, rfl⟩
      exact ⟨fun path hpath htext => absurd ⟨path, hpath, htext⟩ hnone, fun _ => ⟨t, ht, rfl⟩, ht⟩
    · intro h
      obtain ⟨t, ht, rfl⟩ := h.mixed hnone
      exact ⟨t, ht, rfl⟩
  | some path =>
    obtain ⟨hpath, htext⟩ := solePath?_eq_some.1 hsole
    have hrender := render_of_solePath? hsole r
    simp only
    constructor
    · intro h
      split at h
      · rename_i v' hfound
        cases h
        refine ⟨?_, ?_, ?_⟩
        · intro path' hpath' htext'
          have hsame := solePath?_eq_some.2 ⟨hpath', htext'⟩
          rw [hsole] at hsame
          cases hsame
          exact hfound
        · intro hnone
          exact absurd ⟨path, hpath, htext⟩ hnone
        · rw [hrender, renderPiece, hfound]
          exact congrArg Except.ok String.ofList_toList
      · cases h
    · intro h
      rw [h.whole path hpath htext]

/-- A text does not resolve exactly if it cannot be filled in, for the same cause. -/
theorem resolveText_eq_error {source : String} :
    resolveText r source = .error cause ↔ render r source = .error cause := by
  unfold resolveText
  cases hsole : solePath? source with
  | none =>
    simp only
    rw [Checked.map_eq_error]
  | some path =>
    rw [render_of_solePath? hsole r, Checked.map_eq_error, renderPiece]
    cases hfound : r.lookup? path <;> simp [hfound]

/-! ## Values -/

/-- What a value resolves to: each text to what stands for it, and everything else to itself. -/
inductive Resolved (r : Region) : Json → Json → Prop where
  | text {source : String} {v : Json} : ResolvedText r source v → Resolved r (.str source) v
  | arr {vs ws : List Json} : List.Forall₂ (Resolved r) vs ws → Resolved r (.arr vs) (.arr ws)
  | obj {fs gs : List (String × Json)} :
      fs.map (·.1) = gs.map (·.1) → List.Forall₂ (Resolved r) (fs.map (·.2)) (gs.map (·.2)) →
        Resolved r (.obj fs) (.obj gs)
  | null : Resolved r .null .null
  | bool (b : Bool) : Resolved r (.bool b) (.bool b)
  | int (n : Int) : Resolved r (.int n) (.int n)
  | double (d : Double) : Resolved r (.double d) (.double d)

mutual

/-- A value resolves leaf by leaf. -/
theorem resolve_eq_ok {v w : Json} : resolve r v = .ok w ↔ Resolved r v w := by
  cases v with
  | str source =>
    rw [resolve, resolveText_eq_ok]
    constructor
    · exact .text
    · rintro ⟨h⟩
      assumption
  | arr vs =>
    rw [resolve, Checked.map_eq_ok]
    constructor
    · rintro ⟨ws, hws, rfl⟩
      exact .arr (resolveItems_eq_ok.1 hws)
    · rintro (_ | h)
      exact ⟨_, resolveItems_eq_ok.2 h, rfl⟩
  | obj fs =>
    rw [resolve, Checked.map_eq_ok]
    constructor
    · rintro ⟨gs, hgs, rfl⟩
      obtain ⟨hkeys, hvalues⟩ := resolveFields_eq_ok.1 hgs
      exact .obj hkeys hvalues
    · rintro (_ | _ | ⟨hkeys, hvalues⟩)
      exact ⟨_, resolveFields_eq_ok.2 ⟨hkeys, hvalues⟩, rfl⟩
  | null | bool _ | int _ | double _ =>
    constructor
    · intro h
      cases h
      constructor
    · intro h
      cases h
      rfl

/-- A list resolves item by item. -/
theorem resolveItems_eq_ok {vs ws : List Json} :
    resolveItems r vs = .ok ws ↔ List.Forall₂ (Resolved r) vs ws := by
  cases vs with
  | nil =>
    rw [List.forall₂_nil_left_iff, resolveItems]
    constructor
    · intro h
      cases h
      rfl
    · rintro rfl
      rfl
  | cons v vs =>
    rw [List.forall₂_cons_left_iff, resolveItems, Checked.bind_eq_ok]
    constructor
    · rintro ⟨w, hw, hrest⟩
      obtain ⟨ws', hws, hok⟩ := Checked.bind_eq_ok.1 hrest
      cases hok
      exact ⟨w, ws', resolve_eq_ok.1 hw, resolveItems_eq_ok.1 hws, rfl⟩
    · rintro ⟨w, ws', hw, hws, rfl⟩
      exact ⟨w, resolve_eq_ok.2 hw, Checked.bind_eq_ok.2 ⟨ws', resolveItems_eq_ok.2 hws, rfl⟩⟩

/-- Fields resolve value by value, under the same keys. -/
theorem resolveFields_eq_ok {fs gs : List (String × Json)} :
    resolveFields r fs = .ok gs ↔
      fs.map (·.1) = gs.map (·.1) ∧ List.Forall₂ (Resolved r) (fs.map (·.2)) (gs.map (·.2)) := by
  cases fs with
  | nil =>
    rw [resolveFields, List.map_nil, List.map_nil]
    constructor
    · intro h
      cases h
      exact ⟨rfl, .nil⟩
    · rintro ⟨hkeys, _⟩
      rw [List.map_eq_nil_iff.1 hkeys.symm]
  | cons f fs =>
    rcases f with ⟨k, v⟩
    rw [resolveFields, Checked.bind_eq_ok]
    constructor
    · rintro ⟨w, hw, hrest⟩
      obtain ⟨gs', hgs, hok⟩ := Checked.bind_eq_ok.1 hrest
      cases hok
      obtain ⟨hkeys, hvalues⟩ := resolveFields_eq_ok.1 hgs
      exact ⟨congrArg (k :: ·) hkeys, .cons (resolve_eq_ok.1 hw) hvalues⟩
    · rintro ⟨hkeys, hvalues⟩
      cases gs with
      | nil => cases hkeys
      | cons g gs =>
        rcases g with ⟨k', w⟩
        obtain ⟨rfl, hrest⟩ := List.cons.inj hkeys
        obtain ⟨hw, hothers⟩ := List.forall₂_cons.1 hvalues
        exact ⟨w, resolve_eq_ok.2 hw, Checked.bind_eq_ok.2 ⟨gs, resolveFields_eq_ok.2 ⟨hrest, hothers⟩, rfl⟩⟩

end

/-! ## Failures -/

mutual

/-- A value is not resolved as its texts, one after the other, are not rendered. -/
theorem resolve_eq_error {v : Json} {cause : Error} :
    resolve r v = .error cause ↔ (texts v).mapM (render r) = .error cause := by
  cases v with
  | str source =>
    rw [resolve, resolveText_eq_error, texts, List.mapM_cons, List.mapM_nil, Checked.bind_eq_error]
    constructor
    · exact .inl
    · rintro (h | ⟨_, _, hpure⟩)
      · exact h
      · cases hpure
  | arr items => rw [resolve, Checked.map_eq_error, texts, resolveItems_eq_error]
  | obj fields => rw [resolve, Checked.map_eq_error, texts, resolveFields_eq_error]
  | null | bool _ | int _ | double _ =>
    constructor
    · intro h
      cases h
    · intro h
      cases h

/-- A list fails for its first text that cannot be filled in. -/
theorem resolveItems_eq_error {vs : List Json} {cause : Error} :
    resolveItems r vs = .error cause ↔ (itemTexts vs).mapM (render r) = .error cause := by
  cases vs with
  | nil =>
    constructor
    · intro h
      cases h
    · intro h
      cases h
  | cons v vs =>
    rw [resolveItems, Checked.both_eq_error, itemTexts, Checked.mapM_append_eq_error, resolve_eq_error,
      Checked.exists_ok_congr fun _ => resolve_eq_error, resolveItems_eq_error]

/-- Fields fail for the first text in them that cannot be filled in. -/
theorem resolveFields_eq_error {fs : List (String × Json)} {cause : Error} :
    resolveFields r fs = .error cause ↔ (fieldTexts fs).mapM (render r) = .error cause := by
  cases fs with
  | nil =>
    constructor
    · intro h
      cases h
    · intro h
      cases h
  | cons f fs =>
    rcases f with ⟨k, v⟩
    rw [resolveFields, Checked.both_eq_error, fieldTexts, Checked.mapM_append_eq_error, resolve_eq_error,
      Checked.exists_ok_congr fun _ => resolve_eq_error, resolveFields_eq_error]

end

/-! ## The arguments of a call -/

/-- The cause is a path without a value. -/
def IsMissing (cause : Error) : Prop := ∃ path, cause = .missingVariable path

/-- Rendering fails only where a path has no value. -/
theorem render_error {source : String} (h : render r source = .error cause) : IsMissing cause := by
  obtain ⟨o, _, hcause⟩ := render_eq_error.1 h
  exact ⟨_, hcause⟩

/-- Arguments cannot be resolved only where a path has no value. -/
theorem resolveArgs_error {args : Dict Json} (h : resolveArgs r args = .error cause) : IsMissing cause := by
  rcases Checked.bind_eq_error.1 h with hfields | ⟨_, _, hok⟩
  · obtain ⟨_, source, _, _, _, hsource⟩ := Checked.mapM_eq_error_iff.1 (resolveFields_eq_error.1 hfields)
    exact render_error hsource
  · cases hok

/-- A resolved mapping has the names of the mapping. -/
theorem keys_resolveArgs {args args' : Dict Json} (h : resolveArgs r args = .ok args') :
    args'.keys = args.keys := by
  obtain ⟨fields, hfields, hok⟩ := Checked.bind_eq_ok.1 h
  cases hok
  have hnames : args.keys = fields.map (·.1) := (resolveFields_eq_ok.1 hfields).1
  have hsorted : Fields.Sorted fields := by
    have hlt : (fields.map (·.1)).Pairwise (· < ·) := by
      rw [← hnames]
      exact List.pairwise_map.2 args.sorted
    exact List.pairwise_map.1 hlt
  rw [Dict.keys_ofList_of_sorted hsorted, hnames]

/-! ## Values and their texts -/

/-- A value is resolved exactly when each of its texts is rendered. What it resolves to is built as it is, with what
stands for each text in its place, and the error is that of the first text that is not rendered; the region counts
only under the references of the value. -/
theorem resolve_by_texts (v : Json) (r : Region) :
    ((∃ w, resolve r v = .ok w) ↔ ∀ source ∈ texts v, ∃ t, render r source = .ok t) ∧
    (∀ w, resolve r v = .ok w ↔ Resolved r v w) ∧
    (∀ cause, resolve r v = .error cause ↔
      ∃ before source after, texts v = before ++ source :: after ∧
        (∀ s ∈ before, ∃ t, render r s = .ok t) ∧ render r source = .error cause) ∧
    (∀ r', Region.AgreeOn (valueReferences v) r r' → resolve r' v = resolve r v) := by
  refine ⟨?_, ?_, ?_, ?_⟩
  · rw [Checked.exists_ok_congr fun _ => resolve_eq_error, Checked.exists_mapM_eq_ok_iff]
  · intro w
    exact resolve_eq_ok
  · intro cause
    rw [resolve_eq_error, Checked.mapM_eq_error_iff]
  · intro r' h
    exact resolve_eq h

end Playbook.Template

namespace Playbook.Invitation

open Template

/-- An argument with a placeholder, a text that holds one, and a number. -/
def card : Json := .obj [("age", .str "\x7bage\x7d"), ("lines", .arr [.str "Dear \x7bname\x7d,", .int 7])]

def guest : Region := ⟨Dict.ofList [("age", .int 36), ("name", .str "Ada")]⟩

/-- The same guest in a city that the card does not name. -/
def guestAbroad : Region := ⟨Dict.ofList [("age", .int 36), ("city", .str "Turin"), ("name", .str "Ada")]⟩

/-- The city makes no difference to the card. -/
theorem card_of_guest : Region.AgreeOn (valueReferences card) guest guestAbroad ∧
    resolve guest card = .ok (.obj [("age", .int 36), ("lines", .arr [.str "Dear Ada,", .int 7])]) ∧
    resolve guestAbroad card = resolve guest card := by
  have hagree : Region.AgreeOn (valueReferences card) guest guestAbroad := by
    have hnames : valueReferences card = ["age", "name"] := by decide
    rw [hnames]
    unfold Region.AgreeOn
    decide
  exact ⟨hagree, rfl, (resolve_by_texts card guest).2.2.2 guestAbroad hagree⟩

end Playbook.Invitation
