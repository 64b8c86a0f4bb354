import Playbook.Proofs.Checked
import Playbook.Proofs.Definition.WellFormed
import Playbook.Proofs.Dict
import Playbook.Registry

/-! # What is checked when playbooks are loaded

The checks of a definition and of a collection, said in the words of a run: every target is a node, keys of
the system are not touched, schemas are schemas, and every call finds its playbook with exactly the declared
parameters.

Main statements: `Graph.sound_of_fault?_eq_none`, `Definition.exists_node`, `Definition.mem_paramNames`,
`Region.ofArgs_eq` and `Registry.linked_of_ofDefinitions`.
-/

namespace Playbook

open Checked

/-! ## Definitions -/

/-- What is known of a graph without fault. -/
theorem Graph.sound_of_fault?_eq_none [Schema.Compiler] {g : Graph} (h : g.fault? = none) :
    g.start ∈ g.ids ∧ (∀ p ∈ g.params, isReserved p.name = false) ∧ ∀ n ∈ g.nodes, NodeSound g n := by
  have hwell := fault?_eq_none_iff.1 h
  refine ⟨hwell.start, fun p hp => isReserved_eq_false_iff.2 (hwell.params_unreserved p hp), ?_⟩
  intro n hn
  exact (nodeFault?_eq_none_iff.1 (nodeFault?_eq_none_iff_wellFormed.2 (hwell.nodes n hn))).1

namespace Definition

variable {d : Definition}

theorem graph_sound (d : Definition) :
    d.start ∈ d.graph.ids ∧ (∀ p ∈ d.graph.params, isReserved p.name = false) ∧
      ∀ n ∈ d.graph.nodes, d.graph.NodeSound n := by
  obtain ⟨_, hsound⟩ := d.sound
  exact Graph.sound_of_fault?_eq_none hsound

/-- The ids of the nodes lead to nodes. -/
theorem exists_node {id : String} (h : id ∈ d.graph.ids) : ∃ n, d.node? id = some n := by
  rcases List.mem_map.1 h with ⟨n, hn, rfl⟩
  exact ⟨n, node?_eq_some_iff.2 ⟨hn, rfl⟩⟩

/-- A walk finds the start of its playbook. -/
theorem start_mem (d : Definition) : d.start ∈ d.graph.ids :=
  d.graph_sound.1

theorem node_mem {id : String} {n : Node} (h : d.node? id = some n) : n ∈ d.graph.nodes :=
  (node?_eq_some_iff.1 h).1

theorem node_sound {id : String} {n : Node} (h : d.node? id = some n) : d.graph.NodeSound n :=
  d.graph_sound.2.2 n (node_mem h)

/-- The schemas of its nodes are schemas of the compiler that has built a playbook. -/
theorem BuiltBy.compiles {S : Schema.Compiler} (h : d.BuiltBy S) {id : String} {n : Node}
    (hn : d.node? id = some n) {schema : Json} (hs : n.schema? = some schema) : S.compiles schema = true := by
  have hnode := (Graph.fault?_eq_none_iff.1 (ofGraph_eq_ok_iff.1 h).2).nodes n (node_mem hn)
  obtain ⟨-, -, -, -, hschema⟩ := Graph.kind_wellFormed_iff.1 hnode.kind
  exact hschema schema hs

/-- Arguments are accepted exactly if they are the declared parameters. -/
theorem checkArguments_eq_ok_iff {supplied : List String} :
    d.checkArguments supplied = .ok () ↔ ∀ n, n ∈ supplied ↔ n ∈ d.paramNames := by
  -- the names are compared as sets: a name that is supplied twice counts once
  have hnames : ∀ (l : List String) (n : String),
      n ∈ (Dict.ofList (l.map (fun n => (n, ())))).keys ↔ n ∈ l := fun l n => by
    rw [Dict.mem_keys_ofList, List.map_map]
    simp
  simp only [checkArguments]
  split
  · rename_i hunknown
    simp only [Bool.not_eq_true', List.isEmpty_eq_false_iff_exists_mem, List.mem_filter, Bool.not_eq_true',
      List.contains_eq_mem, decide_eq_false_iff_not, hnames] at hunknown
    obtain ⟨n, hn, hnot⟩ := hunknown
    exact iff_of_false (by nofun) fun h => hnot ((h n).1 hn)
  · rename_i hknown
    split
    · rename_i hmissing
      simp only [Bool.not_eq_true', List.isEmpty_eq_false_iff_exists_mem, List.mem_filter, Bool.not_eq_true',
        List.contains_eq_mem, decide_eq_false_iff_not, hnames] at hmissing
      obtain ⟨n, hn, hnot⟩ := hmissing
      exact iff_of_false (by nofun) fun h => hnot ((h n).2 hn)
    · rename_i hpresent
      have hknown : ∀ n ∈ supplied, n ∈ d.paramNames := by simpa [hnames] using hknown
      have hpresent : ∀ n ∈ d.paramNames, n ∈ supplied := by simpa [hnames] using hpresent
      exact iff_of_true rfl fun n => ⟨hknown n, hpresent n⟩

/-- Accepted arguments are declared parameters. -/
theorem mem_paramNames {supplied : List String} (h : d.checkArguments supplied = .ok ()) :
    ∀ n ∈ supplied, n ∈ d.paramNames :=
  fun n hn => (checkArguments_eq_ok_iff.1 h n).1 hn

/-- Accepted arguments have names that are not those of the system. -/
theorem unreserved_of_checkArguments {supplied : List String} (h : d.checkArguments supplied = .ok ()) :
    ∀ n ∈ supplied, isReserved n = false := by
  intro n hn
  rcases List.mem_map.1 (mem_paramNames h n hn) with ⟨p, hp, rfl⟩
  exact d.graph_sound.2.1 p hp

end Definition

/-! ## Regions of arguments -/

theorem Region.insert_eq_ok {r : Region} {key : String} (h : isReserved key = false) (value : Json) :
    r.insert key value = .ok ⟨r.values.insert key value⟩ := by
  rw [Region.insert, h]
  rfl

/-- The arguments are the region, unless one of them has a name of the system; the first such name is told. -/
theorem Region.ofArgs_eq (args : Dict Json) :
    ofArgs args =
      match args.keys.find? isReserved with
      | some key => .error (.reservedKey key)
      | none => .ok ⟨args⟩ := by
  -- generalized over what was inserted before, since the fold carries it along
  suffices hgo : ∀ (pairs : List (String × Json)) (r : Region),
      pairs.foldlM (fun r p => r.insert p.1 p.2) r =
        match (pairs.map (·.1)).find? isReserved with
        | some key => .error (.reservedKey key)
        | none => .ok ⟨pairs.foldl (fun d p => d.insert p.1 p.2) r.values⟩ by
    have hentries : args.entries.foldl (fun d p => d.insert p.1 p.2) empty.values = args :=
      Dict.ofList_entries args
    rw [ofArgs, hgo, hentries]
    rfl
  intro pairs
  induction pairs with
  | nil => exact fun r => rfl
  | cons p pairs ih =>
    intro r
    rw [List.foldlM_cons, List.map_cons, List.foldl_cons]
    cases hp : isReserved p.1 with
    | true =>
      rw [List.find?_cons_of_pos hp, Region.insert, hp]
      rfl
    | false =>
      rw [List.find?_cons_of_neg (by simp [hp]), Region.insert_eq_ok hp]
      exact ih _

/-- Arguments whose names are not those of the system make a region. -/
theorem Region.exists_ofArgs {args : Dict Json} (h : ∀ n ∈ args.keys, isReserved n = false) :
    ∃ r, Region.ofArgs args = .ok r := by
  have hnone : args.keys.find? isReserved = none := by
    rw [List.find?_eq_none]
    intro n hn
    simp [h n hn]
  rw [ofArgs_eq, hnone]
  exact ⟨_, rfl⟩

/-! ## Collections -/

namespace Registry

/-- Every call in the collection finds its playbook, and supplies what it declares. -/
def Linked (r : Registry) : Prop :=
  ∀ name d, r.get? name = some d → ∀ n ∈ d.graph.nodes, ∀ c, n.kind = .invoke c →
    ∃ callee, r.get? c.playbook = some callee ∧ callee.checkArguments c.args.keys = .ok ()

/-- No call is at fault exactly if all are linked. -/
theorem linkFault?_eq_none_iff {r : Registry} : r.linkFault? = none ↔ r.Linked := by
  have hcall : ∀ (d : Definition) (node : String) (c : Call), r.callFault? d node c = none ↔
      ∃ callee, r.get? c.playbook = some callee ∧ callee.checkArguments c.args.keys = .ok () := by
    intro d node c
    unfold callFault?
    cases r.get? c.playbook with
    | none => simp
    | some callee =>
      cases hargs : callee.checkArguments c.args.keys with
      | ok accepted => simp [hargs]
      | error reason => simp [hargs]
  rw [linkFault?, List.findSome?_eq_none_iff]
  simp only [List.findSome?_eq_none_iff, hcall]
  constructor
  · intro h name d hd n hn c hc
    exact h d (Dict.mem_values_iff.2 ⟨name, hd⟩) (n.id, c) (List.mem_filterMap.2 ⟨n, hn, by simp [hc]⟩)
  · intro h d hd p hp
    obtain ⟨name, hname⟩ := Dict.mem_values_iff.1 hd
    obtain ⟨n, hn, hnode⟩ := List.mem_filterMap.1 hp
    split at hnode
    · rename_i c hc
      cases hnode
      exact h name d hname n hn c hc
    · cases hnode

theorem checkLinks_eq_ok_iff {r : Registry} : r.checkLinks = .ok () ↔ r.Linked := by
  rw [← linkFault?_eq_none_iff, checkLinks]
  cases r.linkFault? with
  | none => simp
  | some fault => simp

theorem linked_of_ofDefinitions {ds : List Definition} {r : Registry} (h : ofDefinitions ds = .ok r) :
    r.Linked := by
  rcases bind_eq_ok.1 h with ⟨r', _, hrest⟩
  rcases bind_eq_ok.1 hrest with ⟨_, hlinks, hok⟩
  cases hok
  exact checkLinks_eq_ok_iff.1 hlinks

theorem require_eq_ok {r : Registry} {name : String} {d : Definition} (h : r.get? name = some d) :
    r.require name = .ok d := by
  rw [require, h]

theorem get?_of_require {r : Registry} {name : String} {d : Definition}
    (h : r.require name = .ok d) : r.get? name = some d := by
  rw [require] at h
  split at h
  · cases h
    assumption
  · cases h

end Registry

end Playbook
