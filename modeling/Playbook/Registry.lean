import Playbook.Definition.Document

/-! # Collections of playbooks

Playbooks by name. A collection is linked when every call in it names one of its playbooks and supplies
exactly the declared parameters.
-/

namespace Playbook

/-- Playbooks by name. -/
structure Registry where
  playbooks : Dict Definition
  deriving DecidableEq, Repr

namespace Registry

def empty : Registry := ⟨Dict.empty⟩

instance : Inhabited Registry := ⟨empty⟩

def get? (r : Registry) (name : String) : Option Definition := r.playbooks.get? name

def names (r : Registry) : List String := r.playbooks.keys

/-- The playbook of this name, which must be there. -/
def require (r : Registry) (name : String) : Except Error Definition :=
  match r.get? name with
  | some d => .ok d
  | none => .error (.playbookNotFound name)

/-- Adds a playbook; its name must be new. -/
def insert (r : Registry) (d : Definition) : Except DefinitionError Registry :=
  if r.playbooks.contains d.name then .error (.duplicatePlaybook d.name)
  else .ok ⟨r.playbooks.insert d.name d⟩

/-- Adds playbooks one by one. -/
def insertAll (r : Registry) (ds : List Definition) : Except DefinitionError Registry :=
  ds.foldlM insert r

/-- What is wrong with a call. -/
def callFault? (r : Registry) (caller : Definition) (node : String) (c : Call) :
    Option DefinitionError :=
  match r.get? c.playbook with
  | none => some (.unknownCallee caller.name node c.playbook)
  | some callee =>
    match callee.checkArguments c.args.keys with
    | .ok () => none
    | .error reason => some (.argumentMismatch caller.name node callee.name reason)

/-- The first call that is wrong, by the names of the playbooks and then by the order of nodes. -/
def linkFault? (r : Registry) : Option DefinitionError :=
  r.playbooks.values.findSome? (fun d => d.calls.findSome? (fun p => callFault? r d p.1 p.2))

/-- Checks every call. -/
def checkLinks (r : Registry) : Except DefinitionError Unit :=
  match r.linkFault? with
  | some fault => .error fault
  | none => .ok ()

/-- A linked collection of playbooks. -/
def ofDefinitions (ds : List Definition) : Except DefinitionError Registry := do
  let r ← empty.insertAll ds
  r.checkLinks
  .ok r

/-- Reads the files of a directory that hold playbooks, in the order of their names, and links them. A file
without text cannot be read. -/
def ofFiles [Schema.Compiler] (files : List (String × Option String)) : Except DefinitionError Registry := do
  let playbooks := files.filter (fun f =>
    Definition.extension? f.1 == some "json" || Definition.extension? f.1 == some "toml")
  let sorted := playbooks.mergeSort (fun a b => a.1 ≤ b.1)
  -- by name, so that the file that is to blame does not depend on the order of the directory
  let ds ← sorted.mapM (fun f => Definition.ofFile f.1 f.2)
  ofDefinitions ds

end Registry

end Playbook
