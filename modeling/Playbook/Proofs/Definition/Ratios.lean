import Playbook.Proofs.Definition.Document
import Playbook.Proofs.Definition.WellFormed
import Playbook.Proofs.Number.Integers

/-! # Declared ratios

A node that opens a session may declare a ratio, and a ratio that is no share of a whole refuses the document. The
check comes last: what a document declares goes through the reader of its format first, and TOML, whose floats may be
infinite or no numbers, gives these up on the way, so that the node is loaded without a ratio.

Main statements: `Definition.forall₂_tables` pairs the tables of a document with the nodes that are read from them,
`Graph.tables_finite` says what TOML changes in the tables, and `DocumentFormat.ratios_of_read` what becomes of each
number that is declared.
-/

namespace Playbook

/-! ## Numbers without a text -/

namespace Json

theorem finiteItems_eq (vs : List Json) : finiteItems vs = vs.map finite := by
  induction vs with
  | nil => rfl
  | cons v vs ih => rw [finiteItems, ih, List.map_cons]

/-- Putting null for numbers that are not finite keeps the keys. -/
theorem get?_finiteFields (key : String) (fs : List (String × Json)) :
    Fields.get? key (finiteFields fs) = (Fields.get? key fs).map finite := by
  induction fs with
  | nil => rfl
  | cons f fs ih =>
    rcases f with ⟨k, v⟩
    rw [finiteFields, Fields.get?, Fields.get?]
    split
    · rfl
    · exact ih

theorem finite_arr (vs : List Json) : finite (.arr vs) = .arr (vs.map finite) := by
  rw [finite, finiteItems_eq]

/-- The parts of a value lose their numbers one by one. -/
theorem field?_finite (v : Json) (key : String) : v.finite.field? key = (v.field? key).map finite := by
  cases v with
  | obj fields => rw [finite, field?, get?_finiteFields, field?]
  | double d =>
    rw [finite]
    split <;> rfl
  | arr items =>
    rw [finite_arr]
    rfl
  | null | bool _ | int _ | str _ => rfl

theorem arr?_finite (v : Json) : v.finite.arr? = v.arr?.map (List.map finite) := by
  cases v with
  | arr items => rw [finite_arr, arr?, arr?, Option.map_some]
  | obj fields =>
    rw [finite]
    rfl
  | double d =>
    rw [finite]
    split <;> rfl
  | null | bool _ | int _ | str _ => rfl

/-- So do the fields of a record, whether they have names or positions. -/
theorem look_finite (names : List String) (v : Json) (key : String) :
    (v.finite.record? names).bind (·.look key) = ((v.record? names).bind (·.look key)).map finite := by
  cases v with
  | obj fields =>
    rw [finite]
    exact get?_finiteFields key fields
  | arr items =>
    rw [finite_arr, record?, record?, recordIn?, recordIn?, List.length_map]
    split
    · simp only [Option.bind_some, List.zip_map_right, List.find?_map, Option.map_map]
      rfl
    · rfl
  | double d =>
    rw [finite]
    split <;> rfl
  | null | bool _ | int _ | str _ => rfl

end Json

/-! ## The tables of nodes -/

/-- What a document holds for its nodes, one table for each. -/
def Graph.tables (v : Json) : List Json :=
  (((v.record? ["name", "description", "start_node", "input_schema", "nodes"]).bind (·.look "nodes")).bind
    Json.arr?).getD []

/-- The nodes of a document keep their places. -/
theorem Graph.tables_finite (v : Json) : tables v.finite = (tables v).map Json.finite := by
  rw [tables, tables, Json.look_finite]
  cases (v.record? ["name", "description", "start_node", "input_schema", "nodes"]).bind (·.look "nodes") with
  | none => rfl
  | some nodes =>
    simp only [Option.map_some, Option.bind_some, Json.arr?_finite]
    cases nodes.arr? <;> rfl

/-- The nodes of a graph are read from the tables of its document, one by one. -/
theorem Graph.forall₂_tables {v : Json} {g : Graph} (h : ofJson? v = some g) :
    List.Forall₂ (fun t n => Node.ofJson? t = some n) (tables v) g.nodes := by
  simp only [ofJson?, Option.bind_eq_bind, Option.bind_eq_some_iff] at h
  obtain ⟨r, hr, name, -, description, -, start, -, params, -, nodes, hnodes, hg⟩ := h
  cases hg
  obtain ⟨written, hwritten, hread⟩ := Option.bind_eq_some_iff.1 hnodes
  rw [tables, hr, Option.bind_some, hwritten, Option.bind_some]
  cases written with
  | arr items => exact Json.forall₂_of_mapM_eq_some hread
  | _ => cases hread

/-- A playbook has a node for each of its document. -/
theorem Definition.forall₂_tables [Schema.Compiler] {v : Json} {d : Definition} (h : ofValue v = .ok d) :
    List.Forall₂ (fun t n => Node.ofJson? t = some n) (Graph.tables v) d.nodes := by
  unfold ofValue at h
  split at h
  · cases h
  · split at h
    · rename_i g hg
      have hgraph : d.nodes = g.nodes := congrArg Graph.nodes (ofGraph_eq_ok_iff.1 h).1
      rw [hgraph]
      exact Graph.forall₂_tables hg
    · cases h

/-! ## The ratio of a node -/

/-- The kinds of nodes that may open a session. -/
def sessionTypes : List String := ["invoke", "enter_session"]

/-- A node is of the kind that it names. -/
theorem NodeKind.typeName_of_read? {type : String} {body : Json} {k : NodeKind} (h : read? type body = some k) :
    k.typeName = type := by
  unfold read? at h
  split at h <;> simp only [Option.bind_eq_bind, Option.bind_eq_some_iff, Option.some.injEq, reduceCtorEq] at h
  all_goals grind [typeName]

namespace Node

variable {t w : Json} {n : Node}

/-- A node has the id and the kind of its table, and its kind is read from the same table. -/
theorem of_ofJson? (h : ofJson? t = some n) :
    t.field? "id" = some (.str n.id) ∧ (t.field? "type").bind nodeTypeOf? = some n.kind.typeName ∧
      NodeKind.read? n.kind.typeName t = some n.kind := by
  cases t with
  | obj fields =>
    simp only [ofJson?, Option.bind_eq_bind, Option.bind_eq_some_iff] at h
    obtain ⟨id, hid, next, -, branches, -, type, htype, kind, hkind, hn⟩ := h
    cases hn
    obtain ⟨written, hwritten, hstr⟩ := Option.bind_eq_some_iff.1 hid
    rw [Json.eq_str_of_str? hstr] at hwritten
    rw [NodeKind.typeName_of_read? hkind]
    exact ⟨hwritten, htype, hkind⟩
  | _ => cases h

/-- What is written for the ratio of a session is read as a number, or as no ratio if it is null. -/
theorem windowRatio_of_ofJson? (h : ofJson? t = some n) (htype : n.kind.typeName ∈ sessionTypes)
    (hw : t.field? "window_ratio" = some w) : Json.nullable Json.toDouble? w = some n.windowRatio? := by
  obtain ⟨-, -, hkind⟩ := of_ofJson? h
  rcases n with ⟨id, kind, next, branches⟩
  cases t with
  | obj fields =>
    have hratio : ∀ o,
        Record.optional ⟨fun key => Fields.get? key fields, false⟩ "window_ratio" Json.toDouble? = some o →
          Json.nullable Json.toDouble? w = some o := by
      intro o ho
      rwa [Record.optional, Record.defaulted_of_look hw] at ho
    -- only two kinds of nodes read the field
    cases kind with
    | invoke c =>
      simp only [NodeKind.read?, NodeKind.typeName, Option.bind_eq_bind, Option.bind_eq_some_iff] at hkind
      obtain ⟨r, hr, playbook, -, args, -, mode, -, propagate, -, output, -, failure, -, ratio, ho, summarize, -, hc⟩ :=
        hkind
      cases hr
      cases hc
      exact hratio _ ho
    | enterSession o =>
      simp only [NodeKind.read?, NodeKind.typeName, Option.bind_eq_bind, Option.bind_eq_some_iff] at hkind
      obtain ⟨r, hr, ratio, ho, label, -, hc⟩ := hkind
      cases hr
      cases hc
      exact hratio _ ho
    | _ => simp [NodeKind.typeName, sessionTypes] at htype
  | _ => cases hw

end Node

/-- The ratios of a playbook that was accepted are shares. -/
theorem Definition.share_of_mem {d : Definition} {n : Node} (h : n ∈ d.nodes) : ∀ r ∈ n.windowRatio?, r.IsShare := by
  obtain ⟨_, hsound⟩ := d.sound
  have hkind := ((Graph.fault?_eq_none_iff.1 hsound).nodes n h).kind
  exact (Graph.kind_wellFormed_iff.1 hkind).2.2.2.1

/-! ## Formats -/

/-- The formats of documents. -/
inductive DocumentFormat where
  | json
  | toml
  deriving DecidableEq, Repr

/-- A number, whatever it is good for. -/
def Json.IsNumber : Json → Prop
  | .int _ => True
  | .double _ => True
  | _ => False

namespace DocumentFormat

variable {f : DocumentFormat} {source : String} {v t w : Json} {o : Option Double}

/-- What a text says, before it is read as a playbook. -/
def parse? : DocumentFormat → String → Option Json
  | json => Json.parse?
  | toml => Toml.parse?

/-- Reads a playbook from a text. -/
def read [Schema.Compiler] : DocumentFormat → String → Except DefinitionError Definition
  | json => Definition.ofJsonText
  | toml => Definition.ofTomlText

/-- What is left of a value on the way to the playbook. -/
def kept : DocumentFormat → Json → Json
  | json => id
  | toml => Json.finite

/-- What a number that is declared as a ratio makes of the node: a share of a whole stays as it is, and the floats of
TOML that are infinite or no numbers get lost. -/
inductive Loads (f : DocumentFormat) : Json → Option Double → Prop
  | one : Loads f (.int 1) (some Double.one)
  | share {r : Double} (hr : r.IsShare) : Loads f (.double r) (some r)
  | lost {r : Double} (hf : f = toml) (hr : r.isFinite = false) : Loads f (.double r) none

/-- A document is read as what its format keeps of it. -/
theorem read_eq [Schema.Compiler] (h : f.parse? source = some v) : f.read source = Definition.ofValue (f.kept v) := by
  cases f with
  | json =>
    have hv : Json.parse? source = some v := h
    rw [read, Definition.ofJsonText, hv]
    rfl
  | toml =>
    have hv : Toml.parse? source = some v := h
    rw [read, Definition.ofTomlText, hv]
    rfl

/-- A format keeps all nodes of a document, and their order. -/
theorem tables_kept (f : DocumentFormat) (v : Json) : Graph.tables (f.kept v) = (Graph.tables v).map f.kept := by
  cases f with
  | json => exact (List.map_id _).symm
  | toml => exact Graph.tables_finite v

/-- A format keeps the keys of a record. -/
theorem field?_kept (f : DocumentFormat) (t : Json) (key : String) :
    (f.kept t).field? key = (t.field? key).map f.kept := by
  cases f with
  | json => exact (congrFun Option.map_id _).symm
  | toml => exact Json.field?_finite t key

/-- What a format keeps as a text was this text. -/
theorem eq_str_of_kept {s : String} (h : f.kept v = .str s) : v = .str s := by
  cases f with
  | json => exact h
  | toml =>
    cases v with
    | str _ => exact h
    | double d =>
      simp only [kept, Json.finite] at h
      split at h <;> cases h
    | _ => cases h

theorem nodeTypeOf?_kept (f : DocumentFormat) (v : Json) : nodeTypeOf? (f.kept v) = nodeTypeOf? v := by
  cases f with
  | json => rfl
  | toml =>
    cases v with
    | double d =>
      simp only [kept, Json.finite]
      split <;> rfl
    | _ => rfl

/-- A format keeps what a node says of its kind. -/
theorem type_kept (f : DocumentFormat) (t : Json) :
    ((f.kept t).field? "type").bind nodeTypeOf? = (t.field? "type").bind nodeTypeOf? := by
  rw [field?_kept, Option.bind_map]
  exact congrArg _ (funext (nodeTypeOf?_kept f))

/-- A number that is read as a share of a whole, or as none, is one that loads so. -/
theorem loads_of_nullable (hw : w.IsNumber) (hread : Json.nullable Json.toDouble? (f.kept w) = some o)
    (hshare : ∀ r ∈ o, r.IsShare) : f.Loads w o := by
  cases w with
  | int n =>
    have ho : some (Double.ofInt n) = o := by
      cases f <;> exact Option.some.inj hread
    subst ho
    -- the only integer that is a share is one
    have hfraction : (Double.ofInt n).isFraction = true := by
      obtain ⟨hpos, hle⟩ := hshare _ rfl
      rw [Double.isFraction, hpos, hle, Bool.and_self]
    obtain rfl := (Double.isFraction_ofInt_iff n).1 hfraction
    exact .one
  | double r =>
    have hkept : Json.nullable Json.toDouble? (.double r) = some o → f.Loads (.double r) o := by
      intro hread
      cases hread
      exact .share (hshare r rfl)
    cases f with
    | json => exact hkept hread
    | toml =>
      simp only [kept, Json.finite] at hread
      split at hread
      · exact hkept hread
      · rename_i hfinite
        cases hread
        exact .lost rfl (Bool.eq_false_iff.2 hfinite)
  | _ => cases hw

/-- A table of a document and the node that it has become: the id and the kind are the same, and a number that is
declared as the ratio of a session loads as it does in this format. -/
structure Gives (f : DocumentFormat) (t : Json) (n : Node) : Prop where
  id : t.field? "id" = some (.str n.id)
  type : (t.field? "type").bind nodeTypeOf? = some n.kind.typeName
  ratio : n.kind.typeName ∈ sessionTypes →
    ∀ w, t.field? "window_ratio" = some w → w.IsNumber → f.Loads w n.windowRatio?

/-- A node that was read has the ratio of its document, if that is a finite number. -/
theorem gives_of_ofJson? {n : Node} (h : Node.ofJson? (f.kept t) = some n) (hshare : ∀ r ∈ n.windowRatio?, r.IsShare) :
    f.Gives t n := by
  obtain ⟨hid, htype, -⟩ := Node.of_ofJson? h
  rw [field?_kept] at hid
  rw [type_kept] at htype
  refine ⟨?_, htype, ?_⟩
  · obtain ⟨v, hv, hkept⟩ := Option.map_eq_some_iff.1 hid
    rw [hv, eq_str_of_kept hkept]
  · intro hsession w hw hnumber
    have hkept : (f.kept t).field? "window_ratio" = some (f.kept w) := by rw [field?_kept, hw, Option.map_some]
    exact loads_of_nullable hnumber (Node.windowRatio_of_ofJson? h hsession hkept) hshare

/-- A document that is accepted gives its nodes in their order, with the ratios that their tables declare, unless TOML
has lost them; a document that declares any other number for the ratio of a session is refused. -/
theorem ratios_of_read [Schema.Compiler] (f : DocumentFormat) (source : String) (v : Json)
    (hparse : f.parse? source = some v) :
    (∀ d, f.read source = .ok d → List.Forall₂ f.Gives (Graph.tables v) d.nodes) ∧
    ∀ t ∈ Graph.tables v, ∀ type ∈ sessionTypes, (t.field? "type").bind nodeTypeOf? = some type →
      ∀ w, t.field? "window_ratio" = some w → w.IsNumber → (∀ o, ¬f.Loads w o) →
        ∃ fault, f.read source = .error fault := by
  have haccepted : ∀ d, f.read source = .ok d → List.Forall₂ f.Gives (Graph.tables v) d.nodes := by
    intro d hd
    rw [read_eq hparse] at hd
    have hnodes := Definition.forall₂_tables hd
    rw [tables_kept, List.forall₂_map_left_iff] at hnodes
    have hshares : List.Forall₂ (fun n t => (∀ r ∈ n.windowRatio?, r.IsShare) ∧ Node.ofJson? (f.kept t) = some n)
        d.nodes (Graph.tables v) :=
      (List.forall₂_and_left _ _).2 ⟨fun n hn => Definition.share_of_mem hn, hnodes.flip⟩
    exact (hshares.imp fun n t h => gives_of_ofJson? h.2 h.1).flip
  refine ⟨haccepted, ?_⟩
  intro t ht type hsession htype w hw hnumber hloads
  cases hread : f.read source with
  | error fault => exact ⟨fault, rfl⟩
  | ok d =>
    obtain ⟨hlength, hgives⟩ := List.forall₂_iff_get.1 (haccepted d hread)
    obtain ⟨i, rfl⟩ := List.mem_iff_get.1 ht
    have hgive := hgives i.1 i.2 (hlength ▸ i.2)
    have hkind := Option.some.inj (htype.symm.trans hgive.type)
    exact absurd (hgive.ratio (hkind ▸ hsession) w hw hnumber) (hloads _)

end DocumentFormat

/-! ## A session with a ratio -/

namespace Retreat

/-- A playbook of one session, with the ratio as it is written. -/
def source (ratio : String) : String :=
  "name = \"retreat\"\nstart_node = \"rest\"\n\n[[nodes]]\nid = \"rest\"\ntype = \"enter_session\"\n" ++
    "window_ratio = " ++ ratio ++ "\n"

def table (ratio : Json) : Json :=
  .obj [("id", .str "rest"), ("type", .str "enter_session"), ("window_ratio", ratio)]

def document (ratio : Json) : Json :=
  .obj [("name", .str "retreat"), ("nodes", .arr [table ratio]), ("start_node", .str "rest")]

def graph (ratio : Option Double) : Graph :=
  ⟨"retreat", none, "rest", [], [⟨"rest", .enterSession ⟨ratio, none⟩, none, []⟩]⟩

def half : Double := ⟨0x3FE0000000000000⟩

def infinity : Double := Toml.infinity false

/-- A half is kept, and the double of a window is refused. -/
theorem ratios_of_half :
    (∃ d, @DocumentFormat.read Schema.truthValues .toml (source "0.5") = .ok d ∧
      d.nodes.map (·.windowRatio?) = [some half] ∧
      List.Forall₂ DocumentFormat.toml.Gives [table (.double half)] d.nodes) ∧
    ∃ fault, @DocumentFormat.read Schema.truthValues .toml (source "2") = .error fault := by
  have hhalf : DocumentFormat.toml.parse? (source "0.5") = some (document (.double half)) := by decide +kernel
  have htwo : DocumentFormat.toml.parse? (source "2") = some (document (.int 2)) := by decide +kernel
  have hread : @DocumentFormat.read Schema.truthValues .toml (source "0.5") =
      .ok ⟨graph (some half), Schema.truthValues, by decide⟩ := by
    rw [@DocumentFormat.read_eq _ _ _ Schema.truthValues hhalf]
    rfl
  refine ⟨⟨_, hread, rfl, (@DocumentFormat.ratios_of_read Schema.truthValues _ _ _ hhalf).1 _ hread⟩, ?_⟩
  refine (@DocumentFormat.ratios_of_read Schema.truthValues _ _ _ htwo).2 (table (.int 2))
    (List.mem_singleton_self _) "enter_session" (by decide) rfl (.int 2) rfl trivial ?_
  nofun

/-- Infinity is a ratio that no playbook may have, but its document is accepted, and the session takes whatever ratio
it gets without one. -/
theorem infinity_lost :
    Toml.parse? (source "inf") = some (document (.double infinity)) ∧
      (∃ d, @Definition.ofTomlText Schema.truthValues (source "inf") = .ok d ∧
        d.nodes.map (·.windowRatio?) = [none]) ∧
      @Definition.ofGraph Schema.truthValues (graph (some infinity)) =
        .error (.invalidWindowRatio "retreat" "rest" infinity) := by
  have hparse : Toml.parse? (source "inf") = some (document (.double infinity)) := by decide +kernel
  have hread : @Definition.ofTomlText Schema.truthValues (source "inf") =
      .ok ⟨graph none, Schema.truthValues, by decide⟩ := by
    unfold Definition.ofTomlText
    rw [hparse]
    rfl
  have hbuilt : @Definition.ofGraph Schema.truthValues (graph (some infinity)) =
      .error (.invalidWindowRatio "retreat" "rest" infinity) := by
    rfl
  exact ⟨hparse, ⟨_, hread, rfl⟩, hbuilt⟩

end Retreat

end Playbook
