import Mathlib.Data.List.TakeWhile
import Playbook.Proofs.Node
import Playbook.Proofs.Predicate
import Playbook.Proofs.Registry.Links

/-! # Keys and the references to them

A value is written under a key as it stands, but a reference follows the segments of its path: the first one is
a key of the region, and the others reach into the value there. The two meet where a key has one segment.

Main statements: `Region.reads_lookup?` says what a reference reads in all its uses, `Region.lookup?_insert_self`
and `Region.lookup?_insert_of_dotted` what writing under the key itself makes of it, and
`Definition.reads_of_stores` so of every key under which a playbook stores a value.
-/

namespace Playbook

/-! ## First segments -/

namespace Template

/-- The first segment of a path with points is not the path. -/
theorem rootOf_ne {key : String} (h : '.' ∈ key.toList) : rootOf key.toList ≠ key := by
  -- a first segment has no points, and the path has one
  intro heq
  have hin : '.' ∈ (rootOf key.toList).toList := by
    rw [heq]
    exact h
  rw [rootOf, String.toList_ofList] at hin
  have hne := List.mem_takeWhile_imp hin
  exact bne_iff_ne.1 hne rfl

end Template

/-! ## Reading -/

namespace Region

open Template

/-- A value that was looked up under a key, or the error that there is none. -/
def required (key : String) : Option Json → Except Error Json
  | some v => .ok v
  | none => .error (.missingVariable key)

/-- What a reference to a key reads: in a text, as an argument, and in a comparison. -/
structure Reads (r : Region) (key : String) (found : Option Json) : Prop where
  rendered : render r (placeholder key) = (required key found).map Json.display
  resolved : resolve r (.str (placeholder key)) = required key found
  compared : ∀ text, (Predicate.equals key text).holds r = true ↔ ∃ v, found = some v ∧ v.display = text

variable {key : String}

/-- A reference reads what its path leads to. -/
theorem reads_lookup? (r : Region) (hk : isPath key.toList = true) : r.Reads key (r.lookup? key.toList) where
  rendered := by
    rw [render_of_solePath? (solePath?_placeholder hk), renderPiece]
    cases r.lookup? key.toList with
    | none => exact congrArg (fun path => Except.error (Error.missingVariable path)) String.ofList_toList
    | some v => exact congrArg Except.ok String.ofList_toList
  resolved := by
    simp only [resolve, resolveText, solePath?_placeholder hk]
    cases r.lookup? key.toList with
    | none => exact congrArg (fun path => Except.error (Error.missingVariable path)) String.ofList_toList
    | some v => rfl
  compared := by
    intro text
    simp only [Predicate.holds, Predicate.key, Predicate.displaysAs, Option.any_eq_true, beq_iff_eq]

/-! ## Writing -/

/-- What was written under a key of one segment is what its path leads to. -/
theorem lookup?_insert_self (r : Region) (h : '.' ∉ key.toList) (value : Json) :
    (⟨r.values.insert key value⟩ : Region).lookup? key.toList = some value := by
  simp only [lookup?, Text.segments_eq_singleton h, String.ofList_toList, get?, Dict.get?_insert_self]
  rfl

/-- What was written under a key of several segments is not where its path leads. -/
theorem lookup?_insert_of_dotted (r : Region) (h : '.' ∈ key.toList) (value : Json) :
    (⟨r.values.insert key value⟩ : Region).lookup? key.toList = r.lookup? key.toList :=
  lookup?_eq (Dict.get?_insert_of_ne r.values (rootOf_ne h) value)

end Region

/-! ## The keys of a playbook -/

namespace Definition

/-- The playbook stores values under this key: a parameter, or the result of a node. -/
def Stores (d : Definition) (key : String) : Prop :=
  key ∈ d.paramNames ∨ ∃ n ∈ d.nodes, n.outputKey? = some key

theorem isReserved_of_stores {d : Definition} {key : String} (h : d.Stores key) : isReserved key = false := by
  obtain ⟨_, hparams, hnodes⟩ := d.graph_sound
  rcases h with hparam | ⟨n, hn, hkey⟩
  · obtain ⟨p, hp, rfl⟩ := List.mem_map.1 hparam
    exact hparams p hp
  · exact (hnodes n hn).writes key (Node.mem_writes_of_outputKey? hkey)

/-- Every key under which a playbook stores values takes any value, and a reference to it reads the value if the
key has one segment. If it has several, the reference reads what it read before. -/
theorem reads_of_stores {d : Definition} {key : String} (hkey : d.Stores key)
    (hpath : Template.isPath key.toList = true) (r : Region) (v : Json) :
    ∃ r', r.insert key v = .ok r' ∧
      r'.Reads key (if '.' ∈ key.toList then r.lookup? key.toList else some v) := by
  refine ⟨_, Region.insert_eq_ok (isReserved_of_stores hkey) v, ?_⟩
  have hreads := Region.reads_lookup? ⟨r.values.insert key v⟩ hpath
  -- a point in the key decides whether the path leads to what was written
  split
  · rename_i hdotted
    rwa [Region.lookup?_insert_of_dotted r hdotted] at hreads
  · rename_i hself
    rwa [Region.lookup?_insert_self r hself] at hreads

end Definition

/-! ## A parameter that is not read -/

namespace Badge

/-- Greets by a parameter whose name has two segments. -/
def badge : Definition where
  graph := ⟨"badge", none, "greet", [⟨"user.name", "Whom to greet"⟩],
    [⟨"greet", .emit (Template.placeholder "user.name"), none, []⟩]⟩
  sound := ⟨Schema.truthValues, by decide⟩

theorem stores_name : badge.Stores "user.name" := .inl List.mem_cons_self

/-- A user who is known already. -/
def known : Region := ⟨Dict.ofList [("user", .obj [("name", .str "Grace")])]⟩

end Badge

/-- The parameter gives way to the user who is known already. -/
theorem Badge.reads_known : ∃ r', Badge.known.insert "user.name" (.str "Ada") = .ok r' ∧
    r'.Reads "user.name" (some (.str "Grace")) :=
  Definition.reads_of_stores Badge.stores_name (by decide) Badge.known (.str "Ada")

/-- Where no user is known, the parameter is there and the greeting misses it. -/
theorem Badge.missing_of_given : Badge.badge.Stores "user.name" ∧
    Template.isPath "user.name".toList = true ∧
    ∃ r', Region.empty.insert "user.name" (.str "Ada") = .ok r' ∧ r'.get? "user.name" = some (.str "Ada") ∧
      Template.render r' (Template.placeholder "user.name") = .error (.missingVariable "user.name") ∧
      Template.resolve r' (.str (Template.placeholder "user.name")) = .error (.missingVariable "user.name") ∧
      (Predicate.equals "user.name" "Ada").holds r' = false :=
  ⟨Badge.stores_name, by decide, ⟨Dict.ofList [("user.name", .str "Ada")]⟩, rfl, rfl, rfl, rfl, rfl⟩

end Playbook
