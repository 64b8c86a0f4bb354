import Playbook.Toml.Scalar
import Playbook.Toml.Tree

/-! # Reading configuration documents

Documents of version 1.0 of the format: keys with values, tables under headers, arrays of tables. A
document is read as a value; its floats may be infinite or no numbers, and a date becomes an object
with its text.
-/

namespace Playbook.Toml

/-! ## Keys -/

def isBare (c : Char) : Bool := c.isAlphanum || c = '_' || c = '-'

/-- One part of a key. -/
def simpleKey (s : List Char) : Option (String × List Char) :=
  match s with
  | '"' :: _ => lineString s
  | '\'' :: _ => lineString s
  | s =>
    let run := s.takeWhile isBare
    if run.isEmpty then none else some (String.ofList run, s.drop run.length)

/-- How deeply keys, arrays and inline tables may nest. -/
def nestingLimit : Nat := 79

/-- The parts of a key with points between them. The bound counts the parts. -/
def keyParts : Nat → List Char → Option (List String × List Char)
  | 0, _ => none
  | n + 1, s => do
    let (part, s) ← simpleKey (skipSpace s)
    match skipSpace s with
    | '.' :: rest =>
      let (parts, rest) ← keyParts n rest
      some (part :: parts, rest)
    | rest => some ([part], rest)

def key (s : List Char) : Option (List String × List Char) := keyParts nestingLimit s

/-! ## Values -/

mutual

/-- A value. The first number bounds the steps of the reader, the second the nesting. -/
def value : Nat → Nat → List Char → Option (Json × List Char)
  | 0, _, _ => none
  | steps + 1, depth, s =>
    match s with
    | '"' :: _ => (string s).map (fun p => (.str p.1, p.2))
    | '\'' :: _ => (string s).map (fun p => (.str p.1, p.2))
    | 't' :: 'r' :: 'u' :: 'e' :: rest => some (.bool true, rest)
    | 'f' :: 'a' :: 'l' :: 's' :: 'e' :: rest => some (.bool false, rest)
    | '[' :: rest =>
      match depth with
      | 0 => none
      | depth + 1 => (arrayItems steps depth rest).map (fun p => (.arr p.1, p.2))
    | '\x7b' :: rest =>
      match depth with
      | 0 => none
      | depth + 1 =>
        match skipSpace rest with
        | '\x7d' :: rest => some (.obj [], rest)
        | rest => do
          let (table, rest) ← inlineFields steps depth .empty rest
          some (.obj table.fields, rest)
    | s =>
      match moment s with
      | some found => some found
      | none => number s

/-- The items of an array up to its closing bracket; a comma may stand behind the last. -/
def arrayItems : Nat → Nat → List Char → Option (List Json × List Char)
  | 0, _, _ => none
  | steps + 1, depth, s =>
    match skipLines (s.length + 1) s with
    | ']' :: rest => some ([], rest)
    | s => do
      let (v, s) ← value steps depth s
      match skipLines (s.length + 1) s with
      | ']' :: rest => some ([v], rest)
      | ',' :: rest =>
        let (vs, rest) ← arrayItems steps depth rest
        some (v :: vs, rest)
      | _ => none

/-- The fields of an inline table up to its closing brace. -/
def inlineFields : Nat → Nat → Table → List Char → Option (Table × List Char)
  | 0, _, _, _ => none
  | steps + 1, depth, table, s => do
    let (path, s) ← key s
    match s with
    | '=' :: s =>
      let (v, s) ← value steps depth (skipSpace s)
      let table ← table.assign? path v
      match skipSpace s with
      | '\x7d' :: rest => some (table, rest)
      | ',' :: rest => inlineFields steps depth table rest
      | _ => none
    | _ => none

end

/-! ## Documents -/

/-- The table that lines are being added to. -/
inductive Header where
  | root
  | table (path : List String)
  | tables (path : List String)

/-- What the lines so far have built. -/
structure State where
  root : Table
  header : Header
  current : Table

/-- Puts a table at a path, in the place of an implied one. -/
def placeTable? (root : Table) (path : List String) (t : Table) : Option Table :=
  match path.reverse with
  | [] => none
  | key :: above => Table.descend? false (fun s => some (s.put key t.entry)) above.reverse root

/-- Puts a table behind the others under a repeated header. -/
def appendTable? (root : Table) (path : List String) (t : Table) : Option Table :=
  match path.reverse with
  | [] => none
  | key :: above =>
    Table.descend? false
      (fun s =>
        match Fields.get? key s.entries with
        | none => some (s.put key (.tables [t.entries]))
        | some (.tables ts) => some (s.put key (.tables (t.entries :: ts)))
        | some _ => none)
      above.reverse root

/-- Closes the table that lines were added to. -/
def State.closed? (st : State) : Option Table :=
  match st.header with
  | .root => some st.current
  | .table path => placeTable? st.root path st.current
  | .tables path => appendTable? st.root path st.current

/-- The table that a header starts from: a new one, or one that was only implied by longer headers. -/
def openedTable? (root : Table) (path : List String) : Option Table :=
  match path.reverse with
  | [] => none
  | key :: above => do
    let found ← lookup above.reverse root
    match Fields.get? key found with
    | none => some .empty
    | some (.table true false entries) => some ⟨false, false, entries⟩
    | some _ => none
where
  /-- The entries at a path; tables that are missing have none. -/
  lookup : List String → Table → Option (List (String × Entry))
    | [], t => some t.entries
    | k :: ks, t =>
      match Fields.get? k t.entries with
      | none => some []
      | some (.value _) => none
      | some (.table implied dotted entries) => lookup ks ⟨implied, dotted, entries⟩
      | some (.tables []) => none
      | some (.tables (last :: _)) => lookup ks ⟨false, false, last⟩

/-- Whether a repeated header may stand for a path. -/
def repeatable? (root : Table) (path : List String) : Option Unit :=
  (appendTable? root path .empty).map (fun _ => ())

/-- One line: nothing, a header, or a key with its value. Answers the rest behind it. -/
def line (st : State) (s : List Char) : Option (State × List Char) :=
  match skipSpace s with
  | [] => some (st, [])
  | '#' :: rest => some (st, '#' :: rest)
  | '\n' :: rest => some (st, '\n' :: rest)
  | '\r' :: rest => some (st, '\r' :: rest)
  | '[' :: '[' :: rest => do
    let (path, rest) ← key rest
    match rest with
    | ']' :: ']' :: rest =>
      let root ← st.closed?
      let _ ← repeatable? root path
      some (⟨root, .tables path, .empty⟩, rest)
    | _ => none
  | '[' :: rest => do
    let (path, rest) ← key rest
    match rest with
    | ']' :: rest =>
      let root ← st.closed?
      let table ← openedTable? root path
      some (⟨root, .table path, table⟩, rest)
    | _ => none
  | s => do
    let (path, s) ← key s
    match s with
    | '=' :: s =>
      let (v, s) ← value (2 * s.length + 2) nestingLimit (skipSpace s)
      let current ← st.current.assign? path v
      some ({ st with current := current }, s)
    | _ => none

/-- All lines. The bound counts them. -/
def linesFrom : Nat → State → List Char → Option State
  | 0, _, _ => none
  | n + 1, st, s => do
    let (st, s) ← line st s
    let s := skipComment (skipSpace s)
    match s with
    | [] => some st
    | s =>
      let s ← newline? s
      linesFrom n st s

/-- The value of a whole document. -/
def parse? (source : String) : Option Json := do
  let s := source.toList
  let s := if s.head? = some '\ufeff' then s.drop 1 else s
  let st ← linesFrom (s.length + 1) ⟨.empty, .root, .empty⟩ s
  let root ← st.closed?
  some (.obj root.fields)

end Playbook.Toml
