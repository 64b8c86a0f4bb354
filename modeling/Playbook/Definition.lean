import Playbook.Node
import Playbook.Schema

/-! # Playbooks

A playbook is a graph of nodes with a start and declared parameters. `Graph.fault?` finds the first
thing that is wrong with a graph under a compiler of schemas, and a `Definition` is a graph without fault.
-/

namespace Playbook

/-- A declared parameter. -/
structure Param where
  name : String
  description : String
  deriving DecidableEq, Repr

/-- The graph of a playbook, sound or not. -/
structure Graph where
  name : String
  description : Option String
  start : String
  params : List Param
  nodes : List Node
  deriving DecidableEq, Repr

namespace Graph

def ids (g : Graph) : List String := g.nodes.map (·.id)

/-- The first text that occurs a second time. -/
def firstRepeated? (seen : List String) : List String → Option String
  | [] => none
  | s :: rest => if seen.contains s then some s else firstRepeated? (s :: seen) rest

/-- The first fault of the parameters: a name of the system, or a name declared before. -/
def paramFault? (g : Graph) (seen : List String) : List Param → Option DefinitionError
  | [] => none
  | p :: rest =>
    if isReserved p.name then some (.reservedKey g.name "input_schema" p.name)
    else if seen.contains p.name then some (.duplicateParam g.name p.name)
    else paramFault? g (p.name :: seen) rest

/-- The first fault of a node: a target that is no node, a key of the system, a ratio outside of its
range, or a value that is no schema. -/
def nodeFault? [S : Schema.Compiler] (g : Graph) (n : Node) : Option DefinitionError :=
  match n.targets.find? (fun t => !g.ids.contains t) with
  | some target => some (.missingTarget g.name n.id target)
  | none =>
    match (n.reads ++ n.writes).find? isReserved with
    | some key => some (.reservedKey g.name n.id key)
    | none =>
      match n.windowRatio?.filter (fun r => !r.isFraction) with
      | some ratio => some (.invalidWindowRatio g.name n.id ratio)
      | none =>
        match n.schema?.bind S.fault? with
        | some reason => some (.invalidSchema g.name n.id reason)
        | none => none

/-- The first fault of a graph. -/
def fault? [Schema.Compiler] (g : Graph) : Option DefinitionError :=
  if g.nodes.isEmpty then some (.empty g.name)
  else
    match firstRepeated? [] g.ids with
    | some id => some (.duplicateNode g.name id)
    | none =>
      if !g.ids.contains g.start then some (.missingStart g.name g.start)
      else
        match paramFault? g [] g.params with
        | some fault => some fault
        | none => g.nodes.findSome? (nodeFault? g)

end Graph

/-- A playbook that can be run: a graph with which some compiler of schemas finds no fault. -/
structure Definition where
  graph : Graph
  sound : ∃ _ : Schema.Compiler, graph.fault? = none
  deriving DecidableEq, Repr

namespace Definition

/-- Accepts a graph without fault. -/
def ofGraph [S : Schema.Compiler] (g : Graph) : Except DefinitionError Definition :=
  match h : g.fault? with
  | some fault => .error fault
  | none => .ok ⟨g, S, h⟩

theorem ofGraph_eq_ok_iff [Schema.Compiler] {g : Graph} {d : Definition} :
    ofGraph g = .ok d ↔ d.graph = g ∧ g.fault? = none := by
  unfold ofGraph
  split
  · rename_i fault hfault
    constructor
    · nofun
    · rintro ⟨_, hnone⟩
      rw [hfault] at hnone
      cases hnone
  · rename_i hnone
    constructor
    · intro h
      cases h
      exact ⟨rfl, hnone⟩
    · rintro ⟨rfl, _⟩
      rfl

/-- The graph was accepted with the schemas of this compiler. -/
def BuiltBy (S : Schema.Compiler) (d : Definition) : Prop := ofGraph d.graph = .ok d

theorem BuiltBy.of_ofGraph [S : Schema.Compiler] {g : Graph} {d : Definition} (h : ofGraph g = .ok d) :
    d.BuiltBy S := by
  obtain ⟨rfl, _⟩ := ofGraph_eq_ok_iff.1 h
  exact h

def name (d : Definition) : String := d.graph.name

def start (d : Definition) : String := d.graph.start

def nodes (d : Definition) : List Node := d.graph.nodes

/-- The node with this id. -/
def node? (d : Definition) (id : String) : Option Node := d.graph.nodes.find? (fun n => n.id == id)

def paramNames (d : Definition) : List String := d.graph.params.map (·.name)

/-- The calls of other playbooks, with the ids of their nodes. -/
def calls (d : Definition) : List (String × Call) :=
  d.graph.nodes.filterMap (fun n =>
    match n.kind with
    | .invoke c => some (n.id, c)
    | _ => none)

/-- Compares the names of supplied arguments with the declared parameters: all of them are required,
and nothing else is accepted. -/
def checkArguments (d : Definition) (supplied : List String) : Except ArgumentError Unit :=
  let names (l : List String) : List String := (Dict.ofList (l.map (fun n => (n, ())))).keys
  let declared := names d.paramNames
  let unknown := (names supplied).filter (fun n => !declared.contains n)
  let missing := declared.filter (fun n => !supplied.contains n)
  if !unknown.isEmpty then .error (.unknown unknown)
  else if !missing.isEmpty then .error (.missing missing)
  else .ok ()

end Definition

end Playbook
