import Playbook.Json.Basic
import Playbook.Text.Basic

/-! # Paths into values

Two small languages address a part of a value. A dotted path names object fields and array positions
alike, segment by segment. A query path writes positions in brackets after a field name, skips empty
segments, and answers null where nothing is found.
-/

namespace Playbook.Json

/-! ## Positions -/

/-- A position: decimal digits, with an optional plus sign, below 2^64. -/
def position? (s : List Char) : Option Nat :=
  let ds :=
    match s with
    | '+' :: rest => rest
    | s => s
  if ds.isEmpty || !ds.all Char.isDigit then none
  else
    let n := ds.foldl (fun n c => n * 10 + (c.toNat - 48)) 0
    if n < 0x10000000000000000 then some n else none

/-! ## Dotted paths -/

/-- One segment of a dotted path: a field of an object or a position in an array. -/
def step? (v : Json) (segment : List Char) : Option Json :=
  match v with
  | .obj fields => Fields.get? (String.ofList segment) fields
  | .arr items => (position? segment).bind (fun i => items[i]?)
  | _ => none

/-- Follows the segments from left to right. -/
def follow? (v : Json) (segments : List (List Char)) : Option Json :=
  segments.foldlM step? v

/-! ## Query paths -/

/-- The field name of a query segment and the position in its brackets, if that is a number. -/
def querySegment (segment : List Char) : List Char × Option Nat :=
  match Text.cutAt ['['] segment with
  -- what is no number between the brackets counts for nothing, and the field is taken whole
  | some (key, inner) => (key, position? (inner.reverse.dropWhile (· == ']')).reverse)
  | none => (segment, none)

/-- One segment of a query path; an empty one stays where it is. -/
def queryStep? (v : Json) (segment : List Char) : Option Json :=
  if segment.isEmpty then some v
  else
    let (key, index) := querySegment segment
    let inner := if key.isEmpty then some v else v.field? (String.ofList key)
    match index with
    | some i => inner.bind (fun w => w.item? i)
    | none => inner

/-- What a query path finds in a value, and null if it finds nothing. -/
def query (v : Json) (path : String) : Json :=
  ((Text.segments '.' path.toList).foldlM queryStep? v).getD .null

end Playbook.Json
