import Mathlib.Data.List.Nodup
import Mathlib.Data.List.TakeWhile
import Playbook.Definition
import Playbook.Proofs.Schema
import Playbook.Proofs.Template.Arguments

/-! # Which graphs are playbooks

The checks of a graph run over summaries of its nodes: the ids that a node may lead to, and the keys that it reads
and writes. Here they are said of what the nodes hold, kind by kind, down to the texts inside of arguments, and a
graph without fault is one that is well-formed in this sense.

Main statements: `Graph.fault?_eq_none_iff` for the graphs, and `Definition.ofGraph_accepts` for the playbooks that
are made of them and the nodes that are found there.
-/

namespace Playbook

/-! ## Names of the system -/

/-- The first segment of a key is no name of the system. -/
def Unreserved (key : String) : Prop := Text.firstSegment '.' key ∉ reservedKeys

/-- A key is reserved or not. -/
theorem isReserved_eq_false_iff {key : String} : isReserved key = false ↔ Unreserved key := by
  simp [isReserved, Unreserved]

namespace Template

/-- No placeholder of a text begins with a name of the system. -/
def IsFree (source : String) : Prop :=
  ∀ o : Occurrence, o.StandsIn source.toList → rootOf o.path ∉ reservedKeys

/-- No text inside of the arguments has a placeholder that begins with a name of the system. -/
def AreFree (args : Dict Json) : Prop := ∀ v ∈ args.values, ∀ source ∈ texts v, IsFree source

/-- A first segment is its own first segment. -/
theorem firstSegment_rootOf (path : List Char) : Text.firstSegment '.' (rootOf path) = rootOf path := by
  rw [Text.firstSegment, rootOf, String.toList_ofList, List.takeWhile_idem]

/-- A text is free if none of its references is reserved. -/
theorem forall_references_iff {source : String} :
    (∀ key ∈ references source, Unreserved key) ↔ IsFree source := by
  rw [references_eq, List.forall_mem_map]
  constructor
  · intro h o ho
    have hroot := h o (mem_occurrences.2 ho)
    rwa [Unreserved, firstSegment_rootOf] at hroot
  · intro h o ho
    rw [Unreserved, firstSegment_rootOf]
    exact h o (mem_occurrences.1 ho)

mutual

/-- The references of a value are those of its texts. -/
theorem valueReferences_eq (v : Json) : valueReferences v = (texts v).flatMap references := by
  cases v with
  | str source => simp [valueReferences, texts]
  | arr items => rw [valueReferences, texts, itemReferences_eq]
  | obj fields => rw [valueReferences, texts, fieldReferences_eq]
  | null | bool _ | int _ | double _ => rfl

/-- The references of a list are those of the texts in it. -/
theorem itemReferences_eq (vs : List Json) : itemReferences vs = (itemTexts vs).flatMap references := by
  cases vs with
  | nil => rfl
  | cons v vs =>
    rw [itemReferences, itemTexts, List.flatMap_append, valueReferences_eq, itemReferences_eq]

/-- So are those of fields. -/
theorem fieldReferences_eq (fs : List (String × Json)) :
    fieldReferences fs = (fieldTexts fs).flatMap references := by
  cases fs with
  | nil => rfl
  | cons f fs =>
    rcases f with ⟨k, v⟩
    rw [fieldReferences, fieldTexts, List.flatMap_append, valueReferences_eq, fieldReferences_eq]

end

theorem fieldTexts_eq (fs : List (String × Json)) : fieldTexts fs = (fs.map (·.2)).flatMap texts := by
  induction fs with
  | nil => rfl
  | cons f fs ih =>
    rcases f with ⟨k, v⟩
    rw [fieldTexts, ih, List.map_cons, List.flatMap_cons]

/-- Arguments are free if none of their references is reserved. -/
theorem forall_argReferences_iff {args : Dict Json} :
    (∀ key ∈ argReferences args, Unreserved key) ↔ AreFree args := by
  rw [argReferences, fieldReferences_eq, fieldTexts_eq]
  simp only [List.forall_mem_flatMap, forall_references_iff]
  rfl

end Template

/-! ## Nodes -/

/-- The key under which a node stores its result. -/
def Node.outputKey? (n : Node) : Option String :=
  match n.kind with
  | .generate g => some g.outputKey
  | .invokeTool t => some t.outputKey
  | .invoke c => c.outputKey
  | _ => none

/-- A node writes the key of its output. -/
theorem Node.mem_writes_of_outputKey? {n : Node} {key : String} (h : n.outputKey? = some key) :
    key ∈ n.writes := by
  rcases n with ⟨_, kind, _, _⟩
  cases kind with
  | generate g => exact List.mem_singleton.2 (Option.some.inj h).symm
  | invokeTool t => exact List.mem_singleton.2 (Option.some.inj h).symm
  | invoke c => exact List.mem_append_left _ (Option.mem_toList.2 h)
  | _ => cases h

/-- Beside it, a node writes only the key of errors. -/
theorem Node.outputKey?_of_mem_writes {n : Node} {key : String} (h : key ∈ n.writes) :
    n.outputKey? = some key ∨ key = errorKey := by
  rcases n with ⟨_, kind, _, _⟩
  cases kind with
  | generate g => exact .inl (congrArg some (List.mem_singleton.1 h).symm)
  | invokeTool t => exact .inl (congrArg some (List.mem_singleton.1 h).symm)
  | enterSession o => exact .inr (List.mem_singleton.1 h)
  | invoke c =>
    rcases List.mem_append.1 h with hresult | hfailure
    · exact .inl (Option.mem_toList.1 hresult)
    · split at hfailure
      · exact .inr (List.mem_singleton.1 hfailure)
      · cases hfailure
  | _ => cases h

/-- Besides its result a node writes the errors, and their key is no name of the system. -/
theorem Node.forall_writes_iff {n : Node} :
    (∀ key ∈ n.writes, Unreserved key) ↔ ∀ key ∈ n.outputKey?, Unreserved key := by
  constructor
  · intro h key hkey
    exact h key (mem_writes_of_outputKey? hkey)
  · intro h key hkey
    rcases outputKey?_of_mem_writes hkey with hresult | rfl
    · exact h key hresult
    · exact isReserved_eq_false_iff.1 (by decide)

/-- A node reads its own texts and the keys of its conditions. -/
theorem Node.forall_reads_iff {n : Node} :
    (∀ key ∈ n.reads, Unreserved key) ↔
      (∀ key ∈ kindReads n.kind, Unreserved key) ∧ ∀ b ∈ n.branches, Unreserved b.condition.key := by
  have hroot : ∀ b : Branch, Unreserved b.condition.rootKey ↔ Unreserved b.condition.key := by
    intro b
    have hfirst : Text.firstSegment '.' b.condition.rootKey = Text.firstSegment '.' b.condition.key :=
      Template.firstSegment_rootOf b.condition.key.toList
    rw [Unreserved, Unreserved, hfirst]
  rw [reads, List.forall_mem_append, List.forall_mem_map]
  simp only [hroot]

/-- A node may lead on by its branches, by its next node, and by a failed call. -/
theorem Node.forall_targets_iff {n : Node} {P : String → Prop} :
    (∀ t ∈ n.targets, P t) ↔ (∀ b ∈ n.branches, P b.target) ∧ (∀ t ∈ n.next, P t) ∧ ∀ t ∈ n.onFailure?, P t := by
  rw [targets, List.forall_mem_append, List.forall_mem_append, List.forall_mem_map, and_assoc]
  simp only [Option.mem_toList, Option.mem_def]

/-- Greater than 0 and at most 1. -/
def Double.IsShare (d : Double) : Prop := zero.lt d = true ∧ d.le one = true

/-- What a node does is in order in a graph with these ids. -/
def NodeKind.WellFormed (compiles : Json → Bool) (ids : List String) : NodeKind → Prop
  | .generate g =>
    Template.IsFree g.prompt ∧ Unreserved g.outputKey ∧ ∀ schema ∈ g.schema, compiles schema = true
  | .invokeTool t => Template.AreFree t.args ∧ Unreserved t.outputKey
  | .emit content => Template.IsFree content
  | .reflect content => Template.IsFree content
  | .record r => Template.IsFree r.content
  | .pass => True
  | .invoke c =>
    Template.AreFree c.args ∧ (∀ key ∈ c.outputKey, Unreserved key) ∧ (∀ target ∈ c.onFailure, target ∈ ids) ∧
      ∀ ratio ∈ c.windowRatio, ratio.IsShare
  | .enterSession o => ∀ ratio ∈ o.windowRatio, ratio.IsShare
  | .leaveSession _ => True

/-- A node is in order in a graph with these ids. -/
structure Node.WellFormed (compiles : Json → Bool) (ids : List String) (n : Node) : Prop where
  kind : n.kind.WellFormed compiles ids
  next : ∀ target ∈ n.next, target ∈ ids
  branches : ∀ b ∈ n.branches, b.target ∈ ids
  conditions : ∀ b ∈ n.branches, Unreserved b.condition.key

namespace Graph

/-- A node without fault in its graph. -/
structure NodeSound (g : Graph) (n : Node) : Prop where
  targets : ∀ t ∈ n.targets, t ∈ g.ids
  reads : ∀ k ∈ n.reads, isReserved k = false
  writes : ∀ k ∈ n.writes, isReserved k = false

/-- What the checks of a node say of what it does. -/
theorem kind_wellFormed_iff {compiles : Json → Bool} {n : Node} {ids : List String} :
    n.kind.WellFormed compiles ids ↔
      (∀ target ∈ n.onFailure?, target ∈ ids) ∧ (∀ key ∈ Node.kindReads n.kind, Unreserved key) ∧
        (∀ key ∈ n.outputKey?, Unreserved key) ∧ (∀ ratio ∈ n.windowRatio?, ratio.IsShare) ∧
          ∀ schema, n.schema? = some schema → compiles schema = true := by
  rcases n with ⟨id, kind, next, branches⟩
  cases kind <;>
    simp [NodeKind.WellFormed, Node.onFailure?, Node.kindReads, Node.outputKey?, Node.windowRatio?, Node.schema?,
      Template.forall_references_iff, Template.forall_argReferences_iff, and_left_comm]

section

variable [S : Schema.Compiler]

/-- The checks of a node, one by one. -/
theorem nodeFault?_eq_none_iff {g : Graph} {n : Node} :
    nodeFault? g n = none ↔ NodeSound g n ∧ (∀ ratio ∈ n.windowRatio?, ratio.IsShare) ∧
      ∀ schema, n.schema? = some schema → S.compiles schema = true := by
  -- each check apart, and then that no fault means that all of them are passed
  have htargets : n.targets.find? (fun t => !g.ids.contains t) = none ↔ ∀ t ∈ n.targets, t ∈ g.ids := by
    simp
  have hkeys : (n.reads ++ n.writes).find? isReserved = none ↔
      (∀ k ∈ n.reads, isReserved k = false) ∧ ∀ k ∈ n.writes, isReserved k = false := by
    rw [List.find?_eq_none, List.forall_mem_append]
    simp
  have hratio : n.windowRatio?.filter (fun r => !r.isFraction) = none ↔
      ∀ ratio ∈ n.windowRatio?, ratio.IsShare := by
    simp [Option.filter_eq_none_iff, Double.isFraction, Double.IsShare]
  have hschema : n.schema?.bind S.fault? = none ↔
      ∀ schema, n.schema? = some schema → S.compiles schema = true := by
    simp [Schema.Compiler.fault?_eq_none_iff]
  have hchecks : nodeFault? g n = none ↔
      n.targets.find? (fun t => !g.ids.contains t) = none ∧ (n.reads ++ n.writes).find? isReserved = none ∧
        n.windowRatio?.filter (fun r => !r.isFraction) = none ∧
          n.schema?.bind S.fault? = none := by
    unfold nodeFault?
    generalize n.targets.find? (fun t => !g.ids.contains t) = target
    generalize (n.reads ++ n.writes).find? isReserved = key
    generalize n.windowRatio?.filter (fun r => !r.isFraction) = ratio
    generalize n.schema?.bind S.fault? = schema
    cases target <;> cases key <;> cases ratio <;> cases schema <;> simp
  rw [hchecks, htargets, hkeys, hratio, hschema]
  constructor
  · rintro ⟨htargets, ⟨hreads, hwrites⟩, hratio, hschema⟩
    exact ⟨⟨htargets, hreads, hwrites⟩, hratio, hschema⟩
  · rintro ⟨hsound, hratio, hschema⟩
    exact ⟨hsound.targets, ⟨hsound.reads, hsound.writes⟩, hratio, hschema⟩

/-- No fault is found in a node exactly if it is well-formed, given which schemas compile. -/
theorem nodeFault?_eq_none_iff_wellFormed {g : Graph} {n : Node} :
    nodeFault? g n = none ↔ n.WellFormed S.compiles g.ids := by
  rw [nodeFault?_eq_none_iff]
  constructor
  · rintro ⟨hsound, hratio, hschema⟩
    obtain ⟨hbranches, hnext, hfailure⟩ := Node.forall_targets_iff.1 hsound.targets
    have hreads := hsound.reads
    have hwrites := hsound.writes
    simp only [isReserved_eq_false_iff] at hreads hwrites
    obtain ⟨hkind, hconditions⟩ := Node.forall_reads_iff.1 hreads
    exact ⟨kind_wellFormed_iff.2 ⟨hfailure, hkind, Node.forall_writes_iff.1 hwrites, hratio, hschema⟩, hnext,
      hbranches, hconditions⟩
  · intro h
    obtain ⟨hfailure, hkind, houtput, hratio, hschema⟩ := kind_wellFormed_iff.1 h.kind
    have hreads := Node.forall_reads_iff.2 ⟨hkind, h.conditions⟩
    have hwrites := Node.forall_writes_iff.2 houtput
    simp only [← isReserved_eq_false_iff] at hreads hwrites
    exact ⟨⟨Node.forall_targets_iff.2 ⟨h.branches, h.next, hfailure⟩, hreads, hwrites⟩, hratio, hschema⟩

end

/-! ## Graphs -/

/-- A graph is in order: it has nodes that can be told apart, one of which is the start, its parameters can be told
apart and are no names of the system, and every node is in order. -/
structure WellFormed (compiles : Json → Bool) (g : Graph) : Prop where
  nonempty : g.nodes ≠ []
  distinct : g.ids.Nodup
  start : g.start ∈ g.ids
  params_distinct : (g.params.map (·.name)).Nodup
  params_unreserved : ∀ p ∈ g.params, Unreserved p.name
  nodes : ∀ n ∈ g.nodes, n.WellFormed compiles g.ids

/-- No name is found twice exactly if there is none. -/
theorem firstRepeated?_eq_none_iff {seen l : List String} :
    firstRepeated? seen l = none ↔ l.Nodup ∧ ∀ s ∈ l, s ∉ seen := by
  induction l generalizing seen with
  | nil => simp [firstRepeated?]
  | cons s l ih =>
    rw [firstRepeated?, List.nodup_cons, List.forall_mem_cons]
    split
    · rename_i hseen
      simp [List.contains_iff_mem.1 hseen]
    · rename_i hseen
      -- what has been seen grows by the name in front
      have hnew : s ∉ seen := fun hin => hseen (List.contains_iff_mem.2 hin)
      rw [ih]
      constructor
      · rintro ⟨hl, hall⟩
        refine ⟨⟨fun hin => hall s hin List.mem_cons_self, hl⟩, hnew, ?_⟩
        intro t ht hin
        exact hall t ht (List.mem_cons_of_mem s hin)
      · rintro ⟨⟨hs, hl⟩, _, hall⟩
        refine ⟨hl, ?_⟩
        intro t ht hin
        rcases List.mem_cons.1 hin with rfl | hin
        · exact hs ht
        · exact hall t ht hin

/-- Parameters have no fault if none is a name of the system and none is declared twice. -/
theorem paramFault?_eq_none_iff {g : Graph} {seen : List String} {ps : List Param} :
    paramFault? g seen ps = none ↔
      firstRepeated? seen (ps.map (·.name)) = none ∧ ∀ p ∈ ps, Unreserved p.name := by
  induction ps generalizing seen with
  | nil => simp [paramFault?, firstRepeated?]
  | cons p ps ih =>
    rw [paramFault?, List.map_cons, firstRepeated?, List.forall_mem_cons, ← isReserved_eq_false_iff]
    cases hreserved : isReserved p.name with
    | true => simp
    | false =>
      cases hseen : seen.contains p.name with
      | true => simp
      | false => simp [ih]

/-- A graph has no fault exactly if it is in order. -/
theorem fault?_eq_none_iff [S : Schema.Compiler] {g : Graph} : g.fault? = none ↔ g.WellFormed S.compiles := by
  have hdistinct : ∀ l : List String, firstRepeated? [] l = none ↔ l.Nodup := by
    intro l
    rw [firstRepeated?_eq_none_iff]
    simp
  constructor
  · intro h
    -- each check that is passed gives a condition
    unfold fault? at h
    split at h
    · cases h
    · rename_i hnodes
      split at h
      · cases h
      · rename_i hids
        split at h
        · cases h
        · rename_i hstart
          split at h
          · cases h
          · rename_i hparams
            obtain ⟨hnames, hunreserved⟩ := paramFault?_eq_none_iff.1 hparams
            refine ⟨?_, (hdistinct _).1 hids, ?_, (hdistinct _).1 hnames, hunreserved, ?_⟩
            · exact fun hnil => hnodes (List.isEmpty_iff.2 hnil)
            · simpa using hstart
            · intro n hn
              exact nodeFault?_eq_none_iff_wellFormed.1 (List.findSome?_eq_none_iff.1 h n hn)
  · intro h
    have hnodes : g.nodes.isEmpty = false := by
      rw [List.isEmpty_eq_false_iff]
      exact h.nonempty
    have hparams : paramFault? g [] g.params = none :=
      paramFault?_eq_none_iff.2 ⟨(hdistinct _).2 h.params_distinct, h.params_unreserved⟩
    have hfaults : g.nodes.findSome? (nodeFault? g) = none := by
      rw [List.findSome?_eq_none_iff]
      intro n hn
      exact nodeFault?_eq_none_iff_wellFormed.2 (h.nodes n hn)
    simp [fault?, hnodes, (hdistinct _).2 h.distinct, h.start, hparams, hfaults]

end Graph

/-! ## Playbooks -/

namespace Definition

/-- A graph is accepted exactly if no fault is found in it. -/
theorem exists_ofGraph_iff [S : Schema.Compiler] {g : Graph} : (∃ d, ofGraph g = .ok d) ↔ g.fault? = none := by
  constructor
  · rintro ⟨d, hd⟩
    exact (ofGraph_eq_ok_iff.1 hd).2
  · intro h
    exact ⟨⟨g, S, h⟩, ofGraph_eq_ok_iff.2 ⟨rfl, h⟩⟩

/-- Nodes of a playbook that have one id are the same node. -/
theorem eq_of_id_eq {d : Definition} {m n : Node} (hm : m ∈ d.graph.nodes) (hn : n ∈ d.graph.nodes)
    (hid : m.id = n.id) : m = n := by
  obtain ⟨_, hsound⟩ := d.sound
  exact List.inj_on_of_nodup_map (Graph.fault?_eq_none_iff.1 hsound).distinct hm hn hid

/-- A node is found by its name. -/
theorem node?_eq_some_iff {d : Definition} {id : String} {n : Node} :
    d.node? id = some n ↔ n ∈ d.graph.nodes ∧ n.id = id := by
  constructor
  · intro h
    exact ⟨List.mem_of_find?_eq_some h, by simpa using List.find?_some h⟩
  · rintro ⟨hn, rfl⟩
    cases hfound : d.node? n.id with
    | none =>
      have hno := List.find?_eq_none.1 hfound n hn
      simp at hno
    | some m =>
      have hm : m.id = n.id := by simpa using List.find?_some hfound
      rw [eq_of_id_eq (List.mem_of_find?_eq_some hfound) hn hm]

/-- Whatever compiles schemas, a graph is accepted exactly if it is in order. In the playbook, the id of each node
leads to that node, which is the only one with the id, and no other text leads to a node. -/
theorem ofGraph_accepts [S : Schema.Compiler] (g : Graph) :
    ((∃ d, ofGraph g = .ok d) ↔ g.WellFormed S.compiles) ∧
    ∀ d, ofGraph g = .ok d → d.graph = g ∧
      (∀ id ∈ g.ids, ∃ n, d.node? id = some n ∧ n ∈ g.nodes ∧ n.id = id ∧ ∀ m ∈ g.nodes, m.id = id → m = n) ∧
      ∀ id, id ∉ g.ids → d.node? id = none := by
  refine ⟨exists_ofGraph_iff.trans Graph.fault?_eq_none_iff, ?_⟩
  intro d hd
  obtain ⟨rfl, _⟩ := ofGraph_eq_ok_iff.1 hd
  refine ⟨rfl, ?_, ?_⟩
  · intro id hid
    obtain ⟨n, hn, rfl⟩ := List.mem_map.1 hid
    exact ⟨n, node?_eq_some_iff.2 ⟨hn, rfl⟩, hn, rfl, fun m hm hmid => eq_of_id_eq hm hn hmid⟩
  · intro id hid
    rw [Option.eq_none_iff_forall_ne_some]
    intro n hfound
    obtain ⟨hn, rfl⟩ := node?_eq_some_iff.1 hfound
    exact hid (List.mem_map_of_mem hn)

end Definition

namespace Triage

/-- Routes a question to a tool, or answers it at once. -/
def triage : Graph :=
  ⟨"triage", none, "route", [⟨"topic", "What is asked"⟩],
    [⟨"route", .generate ⟨.router, "Pick one for \x7btopic\x7d", some (.bool true), "last"⟩, some "answer",
      [⟨.equals "last.choice" "search", "search"⟩]⟩,
    ⟨"search", .invokeTool ⟨"look_up", Dict.ofList [("terms", .arr [.str "\x7btopic\x7d"])], "found"⟩, some "answer",
      []⟩,
    ⟨"answer", .emit "\x7blast\x7d \x7bfound\x7d", none, []⟩]⟩

/-- The same with a term that reaches for the history. -/
def nosy : Graph :=
  ⟨"nosy", none, "search", [],
    [⟨"search", .invokeTool ⟨"look_up",
        Dict.ofList [("terms", .arr [.obj [("past", .str "\x7bhistory.0\x7d")]])], "found"⟩, none, []⟩]⟩

end Triage

theorem Triage.triage_accepted : Triage.triage.WellFormed Schema.truthValues.compiles ∧
    ∃ d, @Definition.ofGraph Schema.truthValues Triage.triage = .ok d ∧
      (∃ n, d.node? "search" = some n ∧ n.id = "search") ∧ d.node? "leave" = none := by
  obtain ⟨haccepts, hnodes⟩ := @Definition.ofGraph_accepts Schema.truthValues Triage.triage
  have hok : @Definition.ofGraph Schema.truthValues Triage.triage =
      .ok ⟨Triage.triage, Schema.truthValues, by decide⟩ := rfl
  obtain ⟨_, hfound, hnone⟩ := hnodes _ hok
  obtain ⟨n, hn, _, hid, _⟩ := hfound "search" (by decide)
  exact ⟨haccepts.1 ⟨_, hok⟩, _, hok, ⟨n, hn, hid⟩, hnone "leave" (by decide)⟩

/-- A placeholder counts at any depth. -/
example : @Definition.ofGraph Schema.truthValues Triage.nosy = .error (.reservedKey "nosy" "search" "history") := by
  rfl

end Playbook
