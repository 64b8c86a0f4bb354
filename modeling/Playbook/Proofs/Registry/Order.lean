import Mathlib.Data.List.Nodup
import Playbook.Proofs.Registry.Links

/-! # Collections in any order

Playbooks are put in one by one, and the first name that comes twice is refused; the calls are checked when all of
them are there. So what a collection answers at a name is told by membership in the list that it was made of, and
this does not depend on the order of the list.

Main statements: `get?_of_insertAll` and `exists_insertAll_iff` say what is put in, `linked_iff` what the check of the
calls says of the list, `insertAll_of_perm` that the order does not matter, and `ofDefinitions_accepts` puts these
together.
-/

namespace Playbook

open Checked

namespace Registry

variable {r r' : Registry} {d : Definition} {ds ds' : List Definition}

/-- A collection is determined by what its names answer. -/
theorem ext_get? (h : ∀ name, r.get? name = r'.get? name) : r = r' := by
  rcases r with ⟨playbooks⟩
  rcases r' with ⟨playbooks'⟩
  exact congrArg Registry.mk (Dict.ext_get? h)

/-! ## One playbook -/

theorem insert_eq_ok_iff : r.insert d = .ok r' ↔ r.get? d.name = none ∧ r' = ⟨r.playbooks.insert d.name d⟩ := by
  have hcontains : r.playbooks.contains d.name = (r.get? d.name).isSome := rfl
  rw [insert, hcontains]
  cases r.get? d.name with
  | none => simp [eq_comm]
  | some other => simp

/-- A new playbook is found under its name, and every other name answers as before. -/
theorem get?_of_insert (h : r.insert d = .ok r') (name : String) :
    r'.get? name = if name = d.name then some d else r.get? name := by
  obtain ⟨-, rfl⟩ := insert_eq_ok_iff.1 h
  exact Dict.get?_insert r.playbooks d.name name d

/-! ## A list of playbooks -/

theorem insertAll_cons_eq_ok_iff :
    r.insertAll (d :: ds) = .ok r' ↔ ∃ r₁, r.insert d = .ok r₁ ∧ r₁.insertAll ds = .ok r' := by
  rw [insertAll, List.foldlM_cons]
  exact bind_eq_ok

/-- A name leads to what it led to before, or to the playbook of the list that has it. -/
theorem get?_of_insertAll (h : r.insertAll ds = .ok r') (name : String) (d : Definition) :
    r'.get? name = some d ↔ r.get? name = some d ∨ d ∈ ds ∧ d.name = name := by
  induction ds generalizing r with
  | nil =>
    cases h
    simp
  | cons e ds ih =>
    obtain ⟨r₁, hinsert, hrest⟩ := insertAll_cons_eq_ok_iff.1 h
    have hnew : r.get? e.name = none := (insert_eq_ok_iff.1 hinsert).1
    rw [ih hrest, get?_of_insert hinsert, List.mem_cons]
    by_cases hname : name = e.name
    · subst hname
      rw [if_pos rfl, hnew]
      constructor
      · rintro (hd | hd)
        · cases hd
          exact .inr ⟨.inl rfl, rfl⟩
        · exact .inr ⟨.inr hd.1, hd.2⟩
      · rintro (hd | ⟨rfl | hd, hsame⟩)
        · cases hd
        · exact .inl rfl
        · exact .inr ⟨hd, hsame⟩
    · rw [if_neg hname]
      refine or_congr_right ?_
      constructor
      · rintro ⟨hd, hsame⟩
        exact ⟨.inr hd, hsame⟩
      · rintro ⟨rfl | hd, hsame⟩
        · exact absurd hsame.symm hname
        · exact ⟨hd, hsame⟩

/-- All playbooks are put in exactly if their names are new and differ from each other. -/
theorem exists_insertAll_iff :
    (∃ r', r.insertAll ds = .ok r') ↔ (ds.map (·.name)).Nodup ∧ ∀ d ∈ ds, r.get? d.name = none := by
  induction ds generalizing r with
  | nil => exact iff_of_true ⟨r, rfl⟩ ⟨List.nodup_nil, nofun⟩
  | cons e ds ih =>
    rw [List.map_cons, List.nodup_cons, List.forall_mem_cons]
    constructor
    · rintro ⟨r', h⟩
      obtain ⟨r₁, hinsert, hrest⟩ := insertAll_cons_eq_ok_iff.1 h
      obtain ⟨hnodup, hnone⟩ := ih.1 ⟨r', hrest⟩
      -- what has its name neither in the collection nor at the first playbook
      have hfree : ∀ d ∈ ds, d.name ≠ e.name ∧ r.get? d.name = none := by
        intro d hd
        have hd := hnone d hd
        rw [get?_of_insert hinsert] at hd
        split at hd
        · cases hd
        · exact ⟨‹_›, hd⟩
      refine ⟨⟨?_, hnodup⟩, (insert_eq_ok_iff.1 hinsert).1, fun d hd => (hfree d hd).2⟩
      intro hin
      obtain ⟨d, hd, hsame⟩ := List.mem_map.1 hin
      exact (hfree d hd).1 hsame
    · rintro ⟨⟨hfresh, hnodup⟩, hnew, hnone⟩
      have hinsert : r.insert e = .ok ⟨r.playbooks.insert e.name e⟩ := insert_eq_ok_iff.2 ⟨hnew, rfl⟩
      have hrest : ∀ d ∈ ds, (⟨r.playbooks.insert e.name e⟩ : Registry).get? d.name = none := by
        intro d hd
        have hne : d.name ≠ e.name := fun hsame => hfresh (List.mem_map.2 ⟨d, hd, hsame⟩)
        rw [get?_of_insert hinsert, if_neg hne]
        exact hnone d hd
      obtain ⟨r', hr'⟩ := ih.2 ⟨hnodup, hrest⟩
      exact ⟨r', insertAll_cons_eq_ok_iff.2 ⟨_, hinsert, hr'⟩⟩

/-- Exactly the lists of playbooks with distinct names make a collection. -/
theorem exists_insertAll_empty_iff : (∃ r, empty.insertAll ds = .ok r) ↔ (ds.map (·.name)).Nodup := by
  rw [exists_insertAll_iff]
  exact and_iff_left fun d _ => rfl

/-- Each name is answered with the playbook of the list that has it. -/
theorem get?_of_insertAll_empty (h : empty.insertAll ds = .ok r) (name : String) (d : Definition) :
    r.get? name = some d ↔ d ∈ ds ∧ d.name = name := by
  rw [get?_of_insertAll h]
  exact or_iff_right nofun

/-- The order of playbooks with distinct names does not matter. -/
theorem insertAll_of_perm (hnodup : (ds.map (·.name)).Nodup) (hperm : ds'.Perm ds) :
    empty.insertAll ds' = empty.insertAll ds := by
  obtain ⟨r, hr⟩ := exists_insertAll_empty_iff.2 hnodup
  obtain ⟨r', hr'⟩ := exists_insertAll_empty_iff.2 ((hperm.map (·.name)).nodup_iff.2 hnodup)
  have hsame : r' = r := by
    refine ext_get? fun name => Option.ext fun d => ?_
    rw [get?_of_insertAll_empty hr', get?_of_insertAll_empty hr, hperm.mem_iff]
  rw [hr, hr', hsame]

/-! ## Calls -/

/-- Every call in the playbooks names one of them, and supplies exactly the parameters that this one declares. -/
def LinkedAmong (ds : List Definition) : Prop :=
  ∀ d ∈ ds, ∀ n ∈ d.nodes, ∀ c, n.kind = .invoke c →
    ∃ callee ∈ ds, callee.name = c.playbook ∧ ∀ name, name ∈ c.args.keys ↔ name ∈ callee.paramNames

/-- The check of the calls, said of the list that the collection was made of. -/
theorem linked_iff (h : empty.insertAll ds = .ok r) : r.Linked ↔ LinkedAmong ds := by
  simp only [Linked, LinkedAmong, get?_of_insertAll_empty h, Definition.checkArguments_eq_ok_iff]
  constructor
  · intro hlinked d hd n hn c hc
    obtain ⟨callee, ⟨hcallee, hname⟩, hargs⟩ := hlinked d.name d ⟨hd, rfl⟩ n hn c hc
    exact ⟨callee, hcallee, hname, hargs⟩
  · rintro hlinked name d ⟨hd, -⟩ n hn c hc
    obtain ⟨callee, hcallee, hname, hargs⟩ := hlinked d hd n hn c hc
    exact ⟨callee, ⟨hcallee, hname⟩, hargs⟩

theorem ofDefinitions_eq_ok_iff : ofDefinitions ds = .ok r ↔ empty.insertAll ds = .ok r ∧ r.Linked := by
  rw [ofDefinitions, bind_eq_ok]
  constructor
  · rintro ⟨r₁, hinsert, hrest⟩
    obtain ⟨_, hlinks, hok⟩ := bind_eq_ok.1 hrest
    cases hok
    exact ⟨hinsert, checkLinks_eq_ok_iff.1 hlinks⟩
  · rintro ⟨hinsert, hlinked⟩
    exact ⟨r, hinsert, bind_eq_ok.2 ⟨(), checkLinks_eq_ok_iff.2 hlinked, rfl⟩⟩

/-- What is found in a collection was in the list. -/
theorem mem_of_ofDefinitions (h : ofDefinitions ds = .ok r) {name : String} (hd : r.get? name = some d) : d ∈ ds :=
  ((get?_of_insertAll_empty (ofDefinitions_eq_ok_iff.1 h).1 name d).1 hd).1

theorem exists_ofDefinitions_iff :
    (∃ r, ofDefinitions ds = .ok r) ↔ (ds.map (·.name)).Nodup ∧ LinkedAmong ds := by
  constructor
  · rintro ⟨r, h⟩
    obtain ⟨hinsert, hlinked⟩ := ofDefinitions_eq_ok_iff.1 h
    exact ⟨exists_insertAll_empty_iff.1 ⟨r, hinsert⟩, (linked_iff hinsert).1 hlinked⟩
  · rintro ⟨hnodup, hlinked⟩
    obtain ⟨r, hinsert⟩ := exists_insertAll_empty_iff.2 hnodup
    exact ⟨r, ofDefinitions_eq_ok_iff.2 ⟨hinsert, (linked_iff hinsert).2 hlinked⟩⟩

/-- A list of playbooks is accepted exactly if their names are distinct and every call in them names one of them and
supplies exactly its parameters; the collection then answers each name with the playbook that has it. Another order
of the list is accepted alike and makes the same collection; and if the names are distinct, it also fails alike, with
the same call at fault. -/
theorem ofDefinitions_accepts (ds : List Definition) :
    ((∃ r, ofDefinitions ds = .ok r) ↔
      (ds.map (·.name)).Nodup ∧
        ∀ d ∈ ds, ∀ n ∈ d.nodes, ∀ c, n.kind = .invoke c →
          ∃ callee ∈ ds, callee.name = c.playbook ∧ ∀ name, name ∈ c.args.keys ↔ name ∈ callee.paramNames) ∧
    (∀ r, ofDefinitions ds = .ok r → ∀ name d, r.get? name = some d ↔ d ∈ ds ∧ d.name = name) ∧
    ∀ ds' : List Definition, ds'.Perm ds →
      ((∃ r, ofDefinitions ds' = .ok r) ↔ ∃ r, ofDefinitions ds = .ok r) ∧
      (∀ r, ofDefinitions ds' = .ok r ↔ ofDefinitions ds = .ok r) ∧
      ((ds.map (·.name)).Nodup → ofDefinitions ds' = ofDefinitions ds) := by
  refine ⟨exists_ofDefinitions_iff, ?_, ?_⟩
  · intro r h
    exact get?_of_insertAll_empty (ofDefinitions_eq_ok_iff.1 h).1
  · intro ds' hperm
    have hsame : (ds.map (·.name)).Nodup → ofDefinitions ds' = ofDefinitions ds := by
      intro hnodup
      rw [ofDefinitions, ofDefinitions, insertAll_of_perm hnodup hperm]
    have hnames : (ds'.map (·.name)).Nodup ↔ (ds.map (·.name)).Nodup := (hperm.map (·.name)).nodup_iff
    have hok : ∀ r, ofDefinitions ds' = .ok r ↔ ofDefinitions ds = .ok r := by
      intro r
      constructor
      · intro h
        exact hsame (hnames.1 (exists_ofDefinitions_iff.1 ⟨r, h⟩).1) ▸ h
      · intro h
        exact (hsame (exists_ofDefinitions_iff.1 ⟨r, h⟩).1).trans h
    exact ⟨exists_congr hok, hok, hsame⟩

end Registry

namespace Duet

/-- Calls a playbook with a ball. -/
def passing (name callee : String) : Graph :=
  ⟨name, none, "pass", [⟨"ball", "What is passed on"⟩],
    [⟨"pass",
      .invoke ⟨callee, Dict.ofList [("ball", .str "\x7bball\x7d")], .inline, false, none, none, none, true⟩,
      none, []⟩]⟩

def ping : Definition := ⟨passing "ping" "pong", Schema.truthValues, by decide⟩

def pong : Definition := ⟨passing "pong" "ping", Schema.truthValues, by decide⟩

/-- Passes the ball to nobody. -/
def stray : Definition := ⟨passing "stray" "net", Schema.truthValues, by decide⟩

/-- Two playbooks that call each other are found in whatever order they come, and a stray call is found as well. -/
theorem registry_of_duet :
    (∃ r, Registry.ofDefinitions [ping, pong] = .ok r ∧ r.get? "pong" = some pong ∧
      Registry.ofDefinitions [pong, ping] = .ok r) ∧
    Registry.ofDefinitions [stray, ping, pong] = Registry.ofDefinitions [ping, pong, stray] := by
  obtain ⟨haccepts, hget, hperm⟩ := Registry.ofDefinitions_accepts [ping, pong]
  obtain ⟨r, hr⟩ : ∃ r, Registry.ofDefinitions [ping, pong] = .ok r := by
    refine haccepts.2 ⟨by decide, ?_⟩
    intro d hd n hn c hc
    -- each of the two calls the other one
    rcases List.mem_pair.1 hd with rfl | rfl
    all_goals
      obtain rfl := List.mem_singleton.1 hn
      cases hc
    · exact ⟨pong, List.mem_pair.2 (.inr rfl), rfl, fun _ => Iff.rfl⟩
    · exact ⟨ping, List.mem_pair.2 (.inl rfl), rfl, fun _ => Iff.rfl⟩
  have hpong : pong ∈ [ping, pong] := List.mem_pair.2 (.inr rfl)
  have hstray : ([stray] ++ [ping, pong]).Perm ([ping, pong] ++ [stray]) := List.perm_append_comm
  refine ⟨⟨r, hr, (hget r hr "pong" pong).2 ⟨hpong, rfl⟩, ?_⟩, ?_⟩
  · exact ((hperm [pong, ping] (.swap ping pong [])).2.1 r).2 hr
  · exact ((Registry.ofDefinitions_accepts [ping, pong, stray]).2.2 _ hstray).2.2 (by decide)

end Duet

end Playbook
