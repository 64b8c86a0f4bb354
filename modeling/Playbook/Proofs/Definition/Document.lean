import Playbook.Definition.Document
import Playbook.Proofs.Json.Record
import Playbook.Proofs.Predicate
import Playbook.Proofs.Schema

/-! # Playbooks written and read back

The fields of a kind lie next to those of its node, so what a reader finds in a written node is told field by
field in `Node.Documents`. A node can be read back if its conditions have a path and its schema is not null,
which would stand for no schema; every node that was read is of this form, and so is all that was read around it.

Main statements: `NodeKind.read?_fields`, `Node.ofJson?_toJson` and `Graph.ofJson?_toJson` undo the writers,
`documentFault?_toJson` finds nothing wrong with what they write, `Definition.ofJsonText_of_written` puts these
together for texts, and `Definition.parse?_compact` says which playbooks have a text that reads back.
-/

namespace Playbook

/-! ## Fields that may be absent -/

namespace Json

variable {α : Type}

@[simp] theorem reverse_optionalField (name : String) (write : α → Json) (o : Option α) :
    (optionalField name write o).reverse = optionalField name write o := by
  cases o <;> rfl

/-- A field that may be absent is found if it is there. -/
@[simp] theorem get?_optionalField (key name : String) (write : α → Json) (o : Option α) :
    Fields.get? key (optionalField name write o) = if name = key then o.map write else none := by
  cases o with
  | none => simp [optionalField, Fields.get?]
  | some a => simp [optionalField, Fields.get?]

/-- A dictionary of values is read back as it is. -/
theorem dictOf?_ofDict (d : Dict Json) : dictOf? some (ofDict d) = some d := by
  have hsame : d.mapValues id = d := Dict.ext_get? fun key => by
    rw [Dict.get?_mapValues, Option.map_id, id]
  have hread : dictOf? some (ofDict (d.mapValues id)) = some d := dictOf?_mapValues fun _ _ _ => rfl
  rwa [hsame] at hread

end Json

theorem ProfileName.ofName?_name (p : ProfileName) : ofName? p.name = some p := by
  cases p <;> rfl

theorem CallMode.ofName?_name (m : CallMode) : ofName? m.name = some m := by
  cases m <;> rfl

/-! ## Kinds -/

namespace NodeKind

/-- The fields that a node has besides those of its kind. -/
def outerFields : List String := ["id", "next", "conditional_next"]

/-- A kind is read back from any object that answers at its fields with what was written for them. -/
theorem read?_fields {k : NodeKind} (hschema : ∀ g, k = .generate g → g.schema ≠ some .null)
    {fields : List (String × Json)}
    (h : ∀ key ∉ outerFields, Fields.get? key fields = Fields.get? key k.fields.reverse) :
    read? k.typeName (.obj fields) = some k := by
  let r : Record := ⟨fun key => Fields.get? key fields, false⟩
  have hopen : ∀ names, (Json.obj fields).record? names = some r := fun names => rfl
  have hlook : ∀ key ∉ outerFields, r.look key = Fields.get? key k.fields.reverse := h
  -- what is written for a field that may be absent, and for a dictionary
  have htext : ∀ name (o : Option String), r.look name = o.map .str → r.optional name Json.str? = some o :=
    fun name o => Record.optional_of_look (by nofun) fun _ _ => rfl
  have hratio : ∀ name (o : Option Double), r.look name = o.map .double →
      r.optional name Json.toDouble? = some o :=
    fun name o => Record.optional_of_look (by nofun) fun _ _ => rfl
  have hargs : ∀ args : Dict Json, r.look "args" = some (.ofDict args) →
      r.defaulted "args" (Json.dictOf? some) Dict.empty = some args := by
    intro args hlook
    rw [Record.defaulted_of_look hlook, Json.dictOf?_ofDict]
  cases k with
  | pass => rfl
  | emit content =>
    simp [read?, typeName, hopen, hlook, outerFields, NodeKind.fields, Fields.get?, Record.required, Json.str?]
  | reflect content =>
    simp [read?, typeName, hopen, hlook, outerFields, NodeKind.fields, Fields.get?, Record.required, Json.str?]
  | generate g =>
    have hprofile : Json.taggedChoice? ProfileName.ofName? (.str g.profile.name) = some g.profile :=
      ProfileName.ofName?_name g.profile
    have hresponse : r.optional "response_schema" some = some g.schema :=
      Record.optional_of_ne_null (hschema g rfl) (by simp [hlook, outerFields, NodeKind.fields, Fields.get?])
    simp [read?, typeName, hopen, hlook, hprofile, hresponse, outerFields, NodeKind.fields, Fields.get?,
      Record.required, Record.defaulted, Json.str?]
  | invokeTool t =>
    have hargs := hargs t.args (by simp [hlook, outerFields, NodeKind.fields, Fields.get?])
    simp [read?, typeName, hopen, hlook, hargs, outerFields, NodeKind.fields, Fields.get?, Record.required,
      Record.defaulted_of_look, Json.str?]
  | record rec =>
    have hrole := htext "role" rec.role (by simp [hlook, outerFields, NodeKind.fields, Fields.get?])
    have htags : r.defaulted "tags" (Json.listOf? Json.str?) [] = some rec.tags := by
      rw [Record.defaulted_of_look (v := .arr (rec.tags.map .str))]
      · exact Json.listOf?_map fun a _ => rfl
      · simp [hlook, outerFields, NodeKind.fields, Fields.get?]
    simp [read?, typeName, hopen, hlook, hrole, htags, outerFields, NodeKind.fields, Fields.get?, Record.required,
      Json.str?]
  | invoke c =>
    have hargs := hargs c.args (by simp [hlook, outerFields, NodeKind.fields, Fields.get?])
    have hmode : Json.taggedChoice? CallMode.ofName? (.str c.mode.name) = some c.mode :=
      CallMode.ofName?_name c.mode
    have houtput := htext "output_key" c.outputKey (by simp [hlook, outerFields, NodeKind.fields, Fields.get?])
    have hfailure := htext "on_failure" c.onFailure (by simp [hlook, outerFields, NodeKind.fields, Fields.get?])
    have hratio := hratio "window_ratio" c.windowRatio (by simp [hlook, outerFields, NodeKind.fields, Fields.get?])
    simp [read?, typeName, hopen, hlook, hargs, hmode, houtput, hfailure, hratio, outerFields, NodeKind.fields,
      Fields.get?, Record.required, Record.defaulted_of_look, Json.str?, Json.toBool?]
  | enterSession o =>
    have hratio := hratio "window_ratio" o.windowRatio (by simp [hlook, outerFields, NodeKind.fields, Fields.get?])
    have hlabel := htext "label" o.label (by simp [hlook, outerFields, NodeKind.fields, Fields.get?])
    simp [read?, typeName, hopen, hratio, hlabel]
  | leaveSession s =>
    simp [read?, typeName, hopen, hlook, outerFields, NodeKind.fields, Fields.get?, Record.defaulted, Json.toBool?]

/-- No kind has a field of its node. -/
theorem get?_outer (k : NodeKind) (key : String) (h : key ∈ outerFields) :
    Fields.get? key k.fields.reverse = none := by
  simp only [outerFields, List.mem_cons, List.not_mem_nil, or_false] at h
  rcases h with rfl | rfl | rfl <;> cases k <;> simp [NodeKind.fields, Fields.get?]

/-- A node names its kind. -/
theorem get?_type (k : NodeKind) : Fields.get? "type" k.fields.reverse = some (.str k.typeName) := by
  cases k <;> simp [NodeKind.fields, Fields.get?]

end NodeKind

/-! ## Nodes -/

/-- The conditions of the branches can be written, and no schema is null, which would stand for its absence. -/
structure Node.IsLegible (n : Node) : Prop where
  branches : ∀ b ∈ n.branches, b.condition.IsLegible
  schema : n.schema? ≠ some .null

/-- A branch is read back, if its condition is legible. -/
theorem Branch.ofJson?_toJson {b : Branch} (h : b.condition.IsLegible) : Branch.ofJson? b.toJson = some b := by
  simp [Branch.ofJson?, Branch.toJson, Json.record?_ofFields, Fields.get?, Record.required, Json.str?,
    Predicate.parse_text h, Except.toOption]

namespace Node

/-- The object answers as the document of the node. -/
structure Documents (n : Node) (fields : List (String × Json)) : Prop where
  id : Fields.get? "id" fields = some (.str n.id)
  type : Fields.get? "type" fields = some (.str n.kind.typeName)
  next : Fields.get? "next" fields = n.next.map .str
  branches : Fields.get? "conditional_next" fields =
    if n.branches.isEmpty then none else some (.arr (n.branches.map Branch.toJson))
  kind : ∀ key ∉ NodeKind.outerFields, Fields.get? key fields = Fields.get? key n.kind.fields.reverse

/-- The field of the branches, which is written only if there are some. -/
def branchField (n : Node) : List (String × Json) :=
  if n.branches.isEmpty then [] else [("conditional_next", .arr (n.branches.map Branch.toJson))]

/-- Branches are written if there are any. -/
theorem get?_branchField (n : Node) (key : String) : Fields.get? key n.branchField.reverse =
    if n.branches.isEmpty then none
    else if "conditional_next" = key then some (.arr (n.branches.map Branch.toJson)) else none := by
  unfold branchField
  split <;> rfl

/-- The object that is written for a node answers from the field of its branches backwards. -/
theorem toJson_answers (n : Node) : ∃ fields, n.toJson = .obj fields ∧ ∀ key, Fields.get? key fields =
    (Fields.get? key n.branchField.reverse).or ((if "next" = key then n.next.map .str else none).or
      ((Fields.get? key n.kind.fields.reverse).or (if "id" = key then some (.str n.id) else none))) := by
  refine ⟨_, rfl, fun key => (Dict.get?_ofList _ key).trans ?_⟩
  rw [← branchField]
  simp only [List.reverse_append, Fields.get?_append, Json.reverse_optionalField, Json.get?_optionalField,
    List.reverse_singleton, Fields.get?]

/-- A node is written as a record of its fields. -/
theorem toJson_documents (n : Node) : ∃ fields, n.toJson = .obj fields ∧ n.Documents fields := by
  obtain ⟨fields, hfields, hanswer⟩ := n.toJson_answers
  refine ⟨fields, hfields, ?_⟩
  have hid := n.kind.get?_outer "id" (by decide)
  have hnext := n.kind.get?_outer "next" (by decide)
  have hbranches := n.kind.get?_outer "conditional_next" (by decide)
  constructor
  case id => simp [hanswer, get?_branchField, hid]
  case type => simp [hanswer, get?_branchField, n.kind.get?_type]
  case next => simp [hanswer, get?_branchField, hnext]
  case branches => simp [hanswer, get?_branchField, hbranches]
  case kind =>
    intro key hkey
    simp only [NodeKind.outerFields, List.mem_cons, List.not_mem_nil, or_false, not_or] at hkey
    simp [hanswer, get?_branchField, Ne.symm hkey.1, Ne.symm hkey.2.1, Ne.symm hkey.2.2]

/-- A node is read back as it was written. -/
theorem ofJson?_toJson {n : Node} (h : n.IsLegible) : ofJson? n.toJson = some n := by
  obtain ⟨fields, hfields, hd⟩ := n.toJson_documents
  have hkind : NodeKind.read? n.kind.typeName (.obj fields) = some n.kind := by
    refine NodeKind.read?_fields (fun g hg hnull => h.schema ?_) hd.kind
    rw [schema?, hg]
    exact hnull
  -- from here on the record is known by what it answers
  simp only [hfields, ofJson?]
  generalize hr : (⟨fun key => Fields.get? key fields, false⟩ : Record) = r
  have hlook : ∀ key, r.look key = Fields.get? key fields := fun key => by rw [← hr]
  have hid : r.required "id" Json.str? = some n.id := Record.required_of_look ((hlook _).trans hd.id)
  have htype : r.required "type" nodeTypeOf? = some n.kind.typeName :=
    Record.required_of_look ((hlook _).trans hd.type)
  have hnext : r.optional "next" Json.str? = some n.next :=
    Record.optional_of_look (by nofun) (by simp [Json.str?]) ((hlook _).trans hd.next)
  have hbranches : r.defaulted "conditional_next" (Json.listOf? Branch.ofJson?) [] = some n.branches := by
    have hfield := (hlook _).trans hd.branches
    by_cases hnone : n.branches.isEmpty = true
    · rw [if_pos hnone] at hfield
      rw [Record.defaulted_of_look_none hfield, List.isEmpty_iff.1 hnone]
    · rw [if_neg hnone] at hfield
      rw [Record.defaulted_of_look hfield]
      exact Json.listOf?_map fun b hb => Branch.ofJson?_toJson (h.branches b hb)
  simp [hid, hnext, hbranches, htype, hkind]

end Node

/-! ## Graphs -/

theorem Param.ofJson?_toJson (p : Param) : ofJson? p.toJson = some p := by
  simp [ofJson?, toJson, Json.record?_ofFields, Fields.get?, Record.required, Record.defaulted, Json.str?]

namespace Graph

/-- The nodes can be written. -/
def IsLegible (g : Graph) : Prop := ∀ n ∈ g.nodes, n.IsLegible

/-- The object that is written for a graph. -/
theorem field?_toJson (g : Graph) (key : String) : g.toJson.field? key =
    if "description" = key then g.description.map .str
    else if "nodes" = key then some (.arr (g.nodes.map Node.toJson))
    else if "input_schema" = key then some (.arr (g.params.map Param.toJson))
    else if "start_node" = key then some (.str g.start)
    else if "name" = key then some (.str g.name)
    else none := by
  have htext : (g.description.toList.map fun d => ("description", Json.str d)) =
      Json.optionalField "description" .str g.description := rfl
  refine (Dict.get?_ofList _ key).trans ?_
  rw [htext, List.reverse_append, Fields.get?_append, Json.reverse_optionalField, Json.get?_optionalField]
  simp only [List.reverse_cons, List.reverse_nil, List.nil_append, List.cons_append, Fields.get?]
  by_cases hkey : "description" = key
  · subst hkey
    simp
  · simp [hkey]

/-- A graph is read back as it was written. -/
theorem ofJson?_toJson {g : Graph} (h : g.IsLegible) : ofJson? g.toJson = some g := by
  let r : Record := ⟨g.toJson.field?, false⟩
  have hopen : g.toJson.record? ["name", "description", "start_node", "input_schema", "nodes"] = some r := rfl
  have hname : r.look "name" = some (.str g.name) := g.field?_toJson "name"
  have hdescription : r.look "description" = g.description.map .str := g.field?_toJson "description"
  have hstart : r.look "start_node" = some (.str g.start) := g.field?_toJson "start_node"
  have hparams : r.look "input_schema" = some (.arr (g.params.map Param.toJson)) := g.field?_toJson "input_schema"
  have hnodes : r.look "nodes" = some (.arr (g.nodes.map Node.toJson)) := g.field?_toJson "nodes"
  have hdescription : r.optional "description" Json.str? = some g.description :=
    Record.optional_of_look (by nofun) (by simp [Json.str?]) hdescription
  have hparamList : Json.listOf? Param.ofJson? (.arr (g.params.map Param.toJson)) = some g.params :=
    Json.listOf?_map fun p _ => p.ofJson?_toJson
  have hnodeList : Json.listOf? Node.ofJson? (.arr (g.nodes.map Node.toJson)) = some g.nodes :=
    Json.listOf?_map fun n hn => Node.ofJson?_toJson (h n hn)
  simp [ofJson?, hopen, hdescription, Record.required, Record.defaulted, hname, hstart, hparams, hnodes,
    hparamList, hnodeList, Json.str?]

end Graph

/-! ## Looking through a written graph -/

/-- No fault is found in the branches of a node that was written. -/
theorem branchFault?_toJson {n : Node} (h : n.IsLegible) (playbook id : String) :
    branchFault? playbook id n.toJson = none := by
  obtain ⟨fields, hfields, hd⟩ := n.toJson_documents
  have hbranches : ((n.toJson.field? "conditional_next").bind Json.arr?).getD [] = n.branches.map Branch.toJson := by
    rw [hfields, Json.field?, hd.branches]
    cases n.branches <;> rfl
  rw [branchFault?, hbranches, List.findSome?_eq_none_iff]
  intro v hv
  obtain ⟨b, hb, rfl⟩ := List.mem_map.1 hv
  have hwhen : b.toJson.field? "when" = some (.str b.condition.text) := by
    refine (Dict.get?_ofList _ _).trans ?_
    simp [Fields.get?]
  simp [hwhen, Json.str?, Predicate.parse_text (h.branches b hb)]

/-- No fault is found in a node that was written. -/
theorem nodeDocumentFault?_toJson {n : Node} (h : n.IsLegible) (playbook : String) (index : Nat) :
    nodeDocumentFault? playbook index n.toJson = none := by
  obtain ⟨fields, hfields, hd⟩ := n.toJson_documents
  have htype : n.toJson.field? "type" = some (.str n.kind.typeName) := by
    rw [hfields]
    exact hd.type
  have hknown : nodeTypes.contains n.kind.typeName = true := by
    cases n.kind <;> rfl
  simp only [nodeDocumentFault?, htype, Option.bind_some, Json.str?, hknown, if_true, branchFault?_toJson h]

/-- No fault is found in a graph that was written. -/
theorem documentFault?_toJson {g : Graph} (h : g.IsLegible) : documentFault? g.toJson = none := by
  have hnodes : ((g.toJson.field? "nodes").bind Json.arr?).getD [] = g.nodes.map Node.toJson := by
    rw [g.field?_toJson]
    rfl
  rw [documentFault?, hnodes, List.findSome?_eq_none_iff]
  intro p hp
  obtain ⟨n, hn, hp⟩ := List.mem_map.1 (List.fst_mem_of_mem_zipIdx hp)
  rw [← hp]
  exact nodeDocumentFault?_toJson (h n hn) _ _

/-! ## The text that is written -/

namespace Json.Readable

variable {depth : Nat}

theorem forall_optionalField {α : Type} {name : String} {write : α → Json} {o : Option α} :
    (∀ f ∈ optionalField name write o, Readable depth f.2) ↔ ∀ a ∈ o, Readable depth (write a) := by
  cases o <;> simp [Json.optionalField]

end Json.Readable

/-- The values that the fields of a kind hold as they are. -/
def NodeKind.values : NodeKind → List Json
  | .generate g => g.schema.toList
  | .invokeTool t => t.args.values
  | .invoke c => c.args.values
  | _ => []

namespace Node

/-- The values and the ratio of a node have a text that reads back to them. -/
structure IsReadable (depth : Nat) (n : Node) : Prop where
  values : ∀ v ∈ n.kind.values, Json.Readable depth v
  ratio : ∀ r ∈ n.windowRatio?, r.IsLegible

/-- A schema could lie one level deeper than arguments do. -/
theorem readable_fields {depth : Nat} {n : Node} (h : n.IsReadable depth) :
    ∀ f ∈ n.kind.fields, Json.Readable (depth + 1) f.2 := by
  have hstr : ∀ s, Json.Readable (depth + 1) (.str s) := .str (depth + 1)
  have hbool : ∀ b, Json.Readable (depth + 1) (.bool b) := .bool (depth + 1)
  obtain ⟨hvalues, hratio⟩ := h
  rcases n with ⟨id, kind, next, branches⟩
  cases kind <;> simp only [NodeKind.fields, List.forall_mem_cons, List.forall_mem_append, hstr, hbool,
    Json.Readable.forall_optionalField, List.not_mem_nil, IsEmpty.forall_iff, implies_true,
    true_and, and_true]
  case generate g => exact fun v hv => (hvalues v (Option.mem_toList.2 hv)).succ
  case invokeTool t => exact Json.Readable.ofDict hvalues
  case record r => exact Json.Readable.map fun s _ => .str depth s
  case invoke c => exact ⟨Json.Readable.ofDict hvalues, fun r hr => .double _ (hratio r hr)⟩
  case enterSession o => exact fun r hr => .double _ (hratio r hr)

/-- The text of a node can be read, if those of its schema and its arguments can. -/
theorem readable_toJson {depth : Nat} {n : Node} (h : n.IsReadable (depth + 1)) :
    Json.Readable (depth + 3) n.toJson := by
  have hbranch : ∀ b : Branch, Json.Readable (depth + 1) b.toJson := fun b =>
    Json.Readable.ofFields (by simp [Json.Readable.str])
  have hbranches : ∀ f ∈ n.branchField, Json.Readable (depth + 2) f.2 := by
    unfold branchField
    split
    · nofun
    · simpa using Json.Readable.map fun b _ => hbranch b
  refine Json.Readable.ofFields ?_
  rw [← branchField]
  simp only [List.forall_mem_append, List.forall_mem_singleton, Json.Readable.forall_optionalField]
  exact ⟨⟨⟨.str _ _, readable_fields h⟩, fun s _ => .str _ s⟩, hbranches⟩

end Node

/-- A playbook whose values and ratios have a text has one itself. -/
theorem Graph.readable_toJson {depth : Nat} {g : Graph} (h : ∀ n ∈ g.nodes, n.IsReadable (depth + 1)) :
    Json.Readable (depth + 5) g.toJson := by
  have hparam : ∀ p : Param, Json.Readable (depth + 3) p.toJson := fun p =>
    Json.Readable.ofFields (by simp [Json.Readable.str])
  have hdescription : ∀ f ∈ g.description.toList.map (fun d => ("description", Json.str d)),
      Json.Readable (depth + 4) f.2 :=
    Json.Readable.forall_optionalField.2 fun s _ => .str _ s
  refine Json.Readable.ofFields ?_
  simp only [List.forall_mem_append, List.forall_mem_cons, List.not_mem_nil, IsEmpty.forall_iff, implies_true,
    and_true]
  exact ⟨⟨.str _ _, .str _ _, Json.Readable.map fun p _ => hparam p,
    Json.Readable.map fun n hn => Node.readable_toJson (h n hn)⟩, hdescription⟩

/-- The values inside of a node lie four levels below the playbook. -/
theorem Definition.parse?_compact {d : Definition} (h : ∀ n ∈ d.nodes, n.IsReadable (Json.nestingLimit - 4)) :
    Json.parse? d.toJson.compact = some d.toJson := by
  have hreadable : Json.Readable (122 + 5) d.toJson := Graph.readable_toJson h
  exact hreadable.parse?_compact

/-! ## What has been read can be written -/

/-- The condition of a branch that was read is legible. -/
theorem Branch.isLegible_of_ofJson? {v : Json} {b : Branch} (h : ofJson? v = some b) : b.condition.IsLegible := by
  simp only [ofJson?, Option.bind_eq_bind, Option.bind_eq_some_iff] at h
  obtain ⟨r, -, expr, -, condition, hparse, target, -, hb⟩ := h
  cases hb
  cases hp : Predicate.parse expr with
  | error reason => rw [hp] at hparse; cases hparse
  | ok p =>
    rw [hp] at hparse
    cases hparse
    exact Predicate.isLegible_of_parse hp

/-- A schema that was read is not null, which stands for none. -/
theorem NodeKind.schema_of_read? {type : String} {body : Json} {g : Generate}
    (h : read? type body = some (.generate g)) : g.schema ≠ some .null := by
  unfold read? at h
  -- the other readers never give this kind
  split at h <;> simp only [Option.bind_eq_bind, Option.bind_eq_some_iff, Option.some.injEq, reduceCtorEq,
    and_false, exists_false] at h
  obtain ⟨r, -, profile, -, prompt, -, schema, hschema, outputKey, -, hg⟩ := h
  cases hg
  exact Record.ne_null_of_optional hschema

/-- A node that was read is legible. -/
theorem Node.isLegible_of_ofJson? {v : Json} {n : Node} (h : ofJson? v = some n) : n.IsLegible := by
  cases v with
  | obj fields =>
    simp only [ofJson?, Option.bind_eq_bind, Option.bind_eq_some_iff] at h
    obtain ⟨id, -, next, -, branches, hbranches, type, -, kind, hkind, hn⟩ := h
    cases hn
    refine ⟨fun b hb => ?_, ?_⟩
    · obtain ⟨u, hu⟩ := Record.exists_of_defaulted_listOf? hbranches hb
      exact Branch.isLegible_of_ofJson? hu
    · cases kind with
      | generate g => exact NodeKind.schema_of_read? hkind
      | _ => nofun
  | _ => cases h

/-- So is a graph. -/
theorem Graph.isLegible_of_ofJson? {v : Json} {g : Graph} (h : ofJson? v = some g) : g.IsLegible := by
  simp only [ofJson?, Option.bind_eq_bind, Option.bind_eq_some_iff] at h
  obtain ⟨r, -, name, -, description, -, start, -, params, -, nodes, hnodes, hg⟩ := h
  cases hg
  intro n hn
  obtain ⟨v, -, hv⟩ := Option.bind_eq_some_iff.1 hnodes
  obtain ⟨u, hu⟩ := Json.exists_of_listOf?_eq_some hv hn
  exact Node.isLegible_of_ofJson? hu

namespace Definition

variable [S : Schema.Compiler]

/-- A text is read by way of a graph that its document holds. -/
theorem exists_graph_of_read {source : String} {d : Definition}
    (hread : ofJsonText source = .ok d ∨ ofTomlText source = .ok d) :
    ∃ v g, Graph.ofJson? v = some g ∧ ofGraph g = .ok d := by
  obtain ⟨v, hv⟩ : ∃ v, ofValue v = .ok d := by
    rcases hread with hread | hread
    · unfold ofJsonText at hread
      split at hread
      · exact ⟨_, hread⟩
      · cases hread
    · unfold ofTomlText at hread
      split at hread
      · exact ⟨_, hread⟩
      · cases hread
  unfold ofValue at hv
  split at hv
  · cases hv
  · split at hv
    · rename_i g hg
      exact ⟨v, g, hg, hv⟩
    · cases hv

/-- A playbook that was read can be written, and was accepted. -/
theorem of_read {source : String} {d : Definition}
    (hread : ofJsonText source = .ok d ∨ ofTomlText source = .ok d) :
    d.graph.IsLegible ∧ d.graph.fault? = none := by
  obtain ⟨v, g, hg, hd⟩ := exists_graph_of_read hread
  obtain ⟨rfl, hsound⟩ := ofGraph_eq_ok_iff.1 hd
  exact ⟨Graph.isLegible_of_ofJson? hg, hsound⟩

/-- A playbook that was read was accepted with the schemas of its reader. -/
theorem builtBy_of_read {source : String} {d : Definition}
    (hread : ofJsonText source = .ok d ∨ ofTomlText source = .ok d) : d.BuiltBy S := by
  obtain ⟨_, _, _, hd⟩ := exists_graph_of_read hread
  exact .of_ofGraph hd

/-- What is written for a playbook is read as this playbook. -/
theorem ofValue_toJson {d : Definition} (h : d.graph.IsLegible) (hsound : d.graph.fault? = none) :
    ofValue d.toJson = .ok d := by
  rw [toJson, ofValue, documentFault?_toJson h]
  simp only [Graph.ofJson?_toJson h]
  exact ofGraph_eq_ok_iff.2 ⟨rfl, hsound⟩

/-- A playbook that was read, whatever its document left out, is the same playbook when it is written and read
again, and its text stays the same from then on. How the writer lays out the text is left open, as long as it
reads back to what is written. -/
theorem ofJsonText_of_written {source : String} {d : Definition}
    (hread : ofJsonText source = .ok d ∨ ofTomlText source = .ok d) (write : Definition → String)
    (htext : Json.parse? (write d) = some d.toJson) :
    ∃ d', ofJsonText (write d) = .ok d' ∧ d'.name = d.name ∧ d'.graph.description = d.graph.description ∧
      d'.start = d.start ∧ d'.graph.params = d.graph.params ∧ d'.nodes = d.nodes ∧ write d' = write d := by
  obtain ⟨hlegible, hsound⟩ := of_read hread
  refine ⟨d, ?_, rfl, rfl, rfl, rfl, rfl, rfl⟩
  rw [ofJsonText, htext]
  exact ofValue_toJson hlegible hsound

end Definition

/-! ## A document with much left out -/

namespace Letter

def source : String :=
  "\x7b\"name\":\"letter\",\"start_node\":\"ask\",\"nodes\":[\x7b\"id\":\"ask\",\"type\":\"invoke\",
\"playbook\":\"poet\",\"window_ratio\":0.5,\"conditional_next\":[\x7b\"when\":\"last == \\\"no rhyme\\\"\",\"to\":\"ask\"\x7d]\x7d]\x7d"

/-- The call of the document, with the defaults of what it leaves out. -/
def call : Call := ⟨"poet", .empty, .inline, false, none, none, some ⟨0x3FE0000000000000⟩, true⟩

def graph : Graph :=
  ⟨"letter", none, "ask", [], [⟨"ask", .invoke call, none, [⟨.equals "last" "no rhyme", "ask"⟩]⟩]⟩

def definition : Definition := ⟨graph, Schema.truthValues, by decide +kernel⟩

theorem isReadable_nodes : ∀ n ∈ definition.nodes, n.IsReadable (Json.nestingLimit - 4) := by
  intro n hn
  obtain rfl := List.mem_singleton.1 hn
  refine ⟨nofun, fun r hr => ?_⟩
  obtain rfl := Option.mem_some.1 hr
  decide +kernel

/-- The document is read, written out in full, and read again. -/
theorem ofJsonText_letter : @Definition.ofJsonText Schema.truthValues source = .ok definition ∧
    ∃ d', @Definition.ofJsonText Schema.truthValues definition.toJson.compact = .ok d' ∧ d'.name = definition.name ∧
      d'.graph.description = definition.graph.description ∧ d'.start = definition.start ∧
      d'.graph.params = definition.graph.params ∧ d'.nodes = definition.nodes ∧
      d'.toJson.compact = definition.toJson.compact := by
  have hsource : @Definition.ofJsonText Schema.truthValues source = .ok definition := by decide +kernel
  exact ⟨hsource, @Definition.ofJsonText_of_written Schema.truthValues _ _ (.inl hsource) (fun d => d.toJson.compact)
    (Definition.parse?_compact isReadable_nodes)⟩

end Letter

end Playbook
