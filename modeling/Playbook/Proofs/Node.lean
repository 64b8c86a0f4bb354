import Mathlib.Data.List.Find
import Playbook.Node
import Playbook.Proofs.Checked
import Playbook.Proofs.Template.Placeholders

/-! # What nodes read

A node reads the region only under the keys that it names: the first segments of the paths in its texts, its
arguments and its conditions. Two regions that agree there are the same to it.

Main statements: `Template.render_eq`, `Template.resolveArgs_eq` and `Predicate.holds_eq` say so of texts,
arguments and conditions, and `Node.successor?_eq` of the edges of a node.
-/

namespace Playbook

/-- The regions have the same values under these keys. -/
def Region.AgreeOn (keys : List String) (r r' : Region) : Prop := ∀ key ∈ keys, r'.get? key = r.get? key

variable {r r' : Region}

theorem Region.AgreeOn.mono {keys keys' : List String} (h : AgreeOn keys r r') (hsub : keys' ⊆ keys) :
    AgreeOn keys' r r' :=
  fun key hkey => h key (hsub hkey)

/-! ## Paths -/

/-- A path is followed from the value under its first segment. -/
theorem Region.lookup?_eq {path : List Char}
    (h : r'.get? (Template.rootOf path) = r.get? (Template.rootOf path)) :
    r'.lookup? path = r.lookup? path := by
  obtain ⟨rest, hrest⟩ := Text.exists_segments_eq '.' path
  simp only [lookup?, hrest]
  exact congrArg (fun o => Option.bind o fun v => v.follow? rest) h

/-! ## Texts and arguments -/

namespace Template

theorem mem_references {source : String} {path : List Char} (h : .hole path ∈ scan source) :
    rootOf path ∈ references source :=
  List.mem_map.2 ⟨path, List.mem_filterMap.2 ⟨_, h, rfl⟩, rfl⟩

/-- A text is rendered from the values under its references. -/
theorem render_eq {source : String} (h : Region.AgreeOn (references source) r r') :
    render r' source = render r source := by
  have hpieces : ∀ p ∈ scan source, renderPiece r' p = renderPiece r p := by
    intro p hp
    cases p with
    | char c => rfl
    | hole path => rw [renderPiece, renderPiece, Region.lookup?_eq (h _ (mem_references hp))]
  rw [render, render, Checked.mapM_congr hpieces]

/-- The path of a text that is one placeholder is one of its paths. -/
theorem mem_scan_of_solePath? {source : String} {path : List Char} (h : solePath? source = some path) :
    .hole path ∈ scan source := by
  rw [scan_of_solePath? h]
  exact List.mem_singleton.2 rfl

theorem resolveText_eq {source : String} (h : Region.AgreeOn (references source) r r') :
    resolveText r' source = resolveText r source := by
  rw [resolveText, resolveText]
  cases hs : solePath? source with
  | none =>
    simp only
    rw [render_eq h]
  | some path =>
    simp only
    rw [Region.lookup?_eq (h _ (mem_references (mem_scan_of_solePath? hs)))]

mutual

theorem resolve_eq {v : Json} (h : Region.AgreeOn (valueReferences v) r r') : resolve r' v = resolve r v := by
  cases v with
  | str source => exact resolveText_eq h
  | arr items => rw [resolve, resolve, resolveItems_eq h]
  | obj fields => rw [resolve, resolve, resolveFields_eq h]
  | null => rfl
  | bool b => rfl
  | int n => rfl
  | double d => rfl

theorem resolveItems_eq {vs : List Json} (h : Region.AgreeOn (itemReferences vs) r r') :
    resolveItems r' vs = resolveItems r vs := by
  cases vs with
  | nil => rfl
  | cons v vs =>
    rw [resolveItems, resolveItems, resolve_eq (h.mono (List.subset_append_left _ _)),
      resolveItems_eq (h.mono (List.subset_append_right _ _))]

theorem resolveFields_eq {fs : List (String × Json)} (h : Region.AgreeOn (fieldReferences fs) r r') :
    resolveFields r' fs = resolveFields r fs := by
  cases fs with
  | nil => rfl
  | cons f fs =>
    rcases f with ⟨k, v⟩
    rw [resolveFields, resolveFields, resolve_eq (h.mono (List.subset_append_left _ _)),
      resolveFields_eq (h.mono (List.subset_append_right _ _))]

end

/-- Arguments are resolved from the values under their references. -/
theorem resolveArgs_eq {args : Dict Json} (h : Region.AgreeOn (argReferences args) r r') :
    resolveArgs r' args = resolveArgs r args := by
  rw [resolveArgs, resolveArgs, resolveFields_eq h]

end Template

/-! ## Conditions and edges -/

/-- A condition is decided by the value under its root key. -/
theorem Predicate.holds_eq {p : Predicate} (h : r'.get? p.rootKey = r.get? p.rootKey) :
    p.holds r' = p.holds r := by
  have hlookup : r'.lookup? p.key.toList = r.lookup? p.key.toList := Region.lookup?_eq h
  cases p <;> simp only [holds, hlookup]

/-- A node leads on by the values under its reads. -/
theorem Node.successor?_eq {n : Node} (h : Region.AgreeOn n.reads r r') :
    n.successor? r' = n.successor? r := by
  have hholds : ∀ b ∈ n.branches, b.condition.holds r' = b.condition.holds r := by
    intro b hb
    exact Predicate.holds_eq (h _ (List.mem_append_right _ (List.mem_map.2 ⟨b, hb, rfl⟩)))
  rw [successor?, successor?, List.find?_congr hholds]

/-- What a node does not read stands in none of its texts. -/
theorem Node.not_mem_kindReads {n : Node} {key : String} (h : key ∉ n.reads) : key ∉ kindReads n.kind :=
  fun hin => h (List.mem_append_left _ hin)

end Playbook
