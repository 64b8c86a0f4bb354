import Playbook.Region

/-! # Templates

Text with placeholders: a path between braces stands for the value at that path. A path is an
identifier followed by any number of segments behind points; other braces are plain text.

Main definitions: `scan` splits a source into its characters and placeholders, `render` fills them in,
and `resolve` does so in every text of a value, keeping the type where a text is one placeholder.
-/

namespace Playbook.Template

/-! ## Paths -/

def isWordChar (c : Char) : Bool := c.isAlphanum || c = '_'

/-- Segments of word characters behind points, the first of which does not start with a digit. -/
def isPath (s : List Char) : Bool :=
  (Text.segments '.' s).all (fun seg => !seg.isEmpty && seg.all isWordChar) &&
    !(s.head?.any Char.isDigit)

/-! ## Scanning -/

/-- A part of a source. -/
inductive Piece where
  | char (c : Char)
  | hole (path : List Char)
  deriving DecidableEq, Repr

/-- The path of the placeholder that starts here, if one does. -/
def holeAt? : List Char → Option (List Char)
  | '\x7b' :: rest =>
    let run := rest.takeWhile (fun c => isWordChar c || c = '.')
    -- no character of a path closes a brace, so the longest run is the only candidate
    if (rest.drop run.length).head? = some '\x7d' && isPath run then some run else none
  | _ => none

/-- The parts of a source. The number counts the characters that a placeholder still covers. -/
def scanFrom : Nat → List Char → List Piece
  | _, [] => []
  | covered + 1, _ :: rest => scanFrom covered rest
  | 0, c :: rest =>
    match holeAt? (c :: rest) with
    | some path => .hole path :: scanFrom (path.length + 1) rest
    | none => .char c :: scanFrom 0 rest

def scan (source : String) : List Piece := scanFrom 0 source.toList

/-- The path of a placeholder. -/
def Piece.path? : Piece → Option (List Char)
  | .hole path => some path
  | .char _ => none

/-- The first segment of a path. -/
def rootOf (path : List Char) : String := String.ofList (path.takeWhile (· != '.'))

/-- The keys that a source reads, in order of appearance. -/
def references (source : String) : List String :=
  ((scan source).filterMap Piece.path?).map rootOf

/-! ## Rendering -/

/-- The text that takes the place of a part. -/
def renderPiece (r : Region) : Piece → Except Error (List Char)
  | .char c => .ok [c]
  | .hole path =>
    match r.lookup? path with
    | some v => .ok v.display.toList
    | none => .error (.missingVariable (String.ofList path))

/-- The source with every placeholder replaced by its value; a path without a value is an error. -/
def render (r : Region) (source : String) : Except Error String := do
  let parts ← (scan source).mapM (renderPiece r)
  .ok (String.ofList parts.flatten)

/-- The path of a source that is one placeholder. -/
def solePath? (source : String) : Option (List Char) :=
  match scan source with
  | [.hole path] => some path
  | _ => none

/-! ## Values -/

/-- A text as argument: one placeholder stands for the value itself, any other text is rendered. -/
def resolveText (r : Region) (source : String) : Except Error Json :=
  match solePath? source with
  | some path =>
    match r.lookup? path with
    | some v => .ok v
    | none => .error (.missingVariable (String.ofList path))
  | none => (render r source).map .str

mutual

/-- Resolves every text inside a value; keys and other values stay. -/
def resolve (r : Region) : Json → Except Error Json
  | .str source => resolveText r source
  | .arr items => (resolveItems r items).map .arr
  | .obj fields => (resolveFields r fields).map .obj
  | .null => .ok .null
  | .bool b => .ok (.bool b)
  | .int n => .ok (.int n)
  | .double d => .ok (.double d)

def resolveItems (r : Region) : List Json → Except Error (List Json)
  | [] => .ok []
  | v :: vs => do
    let w ← resolve r v
    let ws ← resolveItems r vs
    .ok (w :: ws)

def resolveFields (r : Region) : List (String × Json) → Except Error (List (String × Json))
  | [] => .ok []
  | (k, v) :: fs => do
    let w ← resolve r v
    let ws ← resolveFields r fs
    .ok ((k, w) :: ws)

end

mutual

/-- The keys that a value reads, in the order of its texts. -/
def valueReferences : Json → List String
  | .str source => references source
  | .arr items => itemReferences items
  | .obj fields => fieldReferences fields
  | _ => []

def itemReferences : List Json → List String
  | [] => []
  | v :: vs => valueReferences v ++ itemReferences vs

def fieldReferences : List (String × Json) → List String
  | [] => []
  | (_, v) :: fs => valueReferences v ++ fieldReferences fs

end

/-- Resolves the values of an argument mapping in the order of their names. -/
def resolveArgs (r : Region) (args : Dict Json) : Except Error (Dict Json) := do
  let fields ← resolveFields r args.entries
  .ok (Dict.ofList fields)

/-- The keys that an argument mapping reads. -/
def argReferences (args : Dict Json) : List String := fieldReferences args.entries

end Playbook.Template
