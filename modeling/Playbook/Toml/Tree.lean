import Playbook.Json.Basic

/-! # Tables of configuration documents

The tree that the lines of a document build up. A table remembers whether it was only implied by a
longer header, and whether dotted keys made it: a table may not be defined twice, and the two ways of
defining one do not mix.

Main definitions: `Table.descend?` changes the table at a path, and `Table.fields` forgets how the
tables came about.
-/

namespace Playbook.Toml

/-- What stands under a key. -/
inductive Entry where
  | value (v : Json)
  | table (implied dotted : Bool) (entries : List (String × Entry))
  /-- Tables under one repeated header, the last one first. -/
  | tables (ts : List (List (String × Entry)))

/-- A table with the way in which it came about. -/
structure Table where
  implied : Bool
  dotted : Bool
  entries : List (String × Entry)

mutual

/-- The value of an entry. -/
def Entry.toJson : Entry → Json
  | .value v => v
  | .table _ _ entries => .obj (entriesToFields entries)
  | .tables ts => .arr (tablesToItems ts).reverse

def entriesToFields : List (String × Entry) → List (String × Json)
  | [] => []
  | (k, e) :: rest => (k, Entry.toJson e) :: entriesToFields rest

def tablesToItems : List (List (String × Entry)) → List Json
  | [] => []
  | t :: ts => .obj (entriesToFields t) :: tablesToItems ts

end

namespace Table

def empty : Table := ⟨false, false, []⟩

def entry (t : Table) : Entry := .table t.implied t.dotted t.entries

def put (t : Table) (key : String) (e : Entry) : Table :=
  { t with entries := Fields.insert key e t.entries }

/-- Changes the table at a path, making the tables that are missing. Headers reach into the last of
repeated tables; dotted keys do not reach into tables that a header has defined. -/
def descend? (dotted : Bool) (f : Table → Option Table) : List String → Table → Option Table
  | [], t => f t
  | k :: ks, t =>
    match Fields.get? k t.entries with
    | none => (descend? dotted f ks ⟨true, dotted, []⟩).map (fun s => t.put k s.entry)
    | some (.value _) => none
    | some (.table implied wasDotted entries) =>
      if dotted && !implied then none
      else (descend? dotted f ks ⟨implied, wasDotted, entries⟩).map (fun s => t.put k s.entry)
    | some (.tables []) => none
    | some (.tables (last :: others)) =>
      if dotted then none
      else
        (descend? dotted f ks ⟨false, false, last⟩).map
          (fun s => t.put k (.tables (s.entries :: others)))

/-- Sets a new key; it must not be there, and dotted keys only extend tables that dotted keys made. -/
def define? (behindDots : Bool) (key : String) (v : Json) (t : Table) : Option Table :=
  if t.dotted != behindDots then none
  else
    match Fields.get? key t.entries with
    | some _ => none
    | none => some (t.put key (.value v))

/-- Sets the value of a dotted key. -/
def assign? (t : Table) (path : List String) (v : Json) : Option Table :=
  match path.reverse with
  | [] => none
  | key :: above => descend? true (define? (!above.isEmpty) key v) above.reverse t

/-- The values of a table by key. -/
def fields (t : Table) : List (String × Json) := entriesToFields t.entries

end Table

end Playbook.Toml
