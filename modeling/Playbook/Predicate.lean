import Playbook.Json.Parser
import Playbook.Template

/-! # Conditions

Conditions over the node region, written as short expressions: `key`, `!key`, `key == "text"`,
`key != "text"` and `key contains "text"`. The value of a comparison is a quoted text or the rest of
the expression as it stands.

Main definitions: `Predicate.parse` and `Predicate.text` read and write them, `Predicate.holds` decides
them.
-/

namespace Playbook

/-- A condition on the value at a key path. -/
inductive Predicate where
  | truthy (key : String)
  | falsy (key : String)
  | equals (key value : String)
  | notEquals (key value : String)
  | includes (key value : String)
  deriving DecidableEq, Repr

namespace Predicate

/-- The path that a condition reads. -/
def key : Predicate → String
  | .truthy k => k
  | .falsy k => k
  | .equals k _ => k
  | .notEquals k _ => k
  | .includes k _ => k

/-- The key of the region that a condition reads. -/
def rootKey (p : Predicate) : String := Text.firstSegment '.' p.key

/-! ## Reading -/

/-- The comparisons. -/
inductive Comparison where
  | equals
  | notEquals
  | includes
  deriving DecidableEq, Repr

def Comparison.sign : Comparison → List Char
  | .equals => ['=', '=']
  | .notEquals => ['!', '=']
  | .includes => [' ', 'c', 'o', 'n', 't', 'a', 'i', 'n', 's', ' ']

def Comparison.build : Comparison → String → String → Predicate
  | .equals => .equals
  | .notEquals => .notEquals
  | .includes => .includes

/-- A key path between blanks. -/
def parseKey (s : List Char) : Except PredicateError String :=
  let key := Text.trim s
  if Template.isPath key then .ok (String.ofList key) else .error (.notAKey (String.ofList key))

/-- The value of a comparison between blanks. -/
def parseValue (s : List Char) : Except PredicateError String :=
  match Text.trim s with
  | [] => .error .missingValue
  | '"' :: rest =>
    match Json.Parser.string ('"' :: rest) with
    | some (text, after) =>
      if (Json.Parser.skipSpace after).isEmpty then .ok text else .error .badLiteral
    | none => .error .badLiteral
  | bare => .ok (String.ofList bare)

/-- The comparison whose sign comes first, with the text on both sides of it. -/
def firstComparison? (s : List Char) : Option (Comparison × List Char × List Char) :=
  let found := [Comparison.equals, .notEquals, .includes].filterMap
    (fun c => (Text.cutAt c.sign s).map (fun p => (c, p.1, p.2)))
  found.foldl
    (fun best next =>
      match best with
      | none => some next
      -- no two signs start at one place, so there are no ties
      | some b => if next.2.1.length < b.2.1.length then some next else some b)
    none

/-- Reads a condition. The first comparison sign decides, so that a value may hold others. -/
def parse (expr : String) : Except PredicateError Predicate := do
  let s := Text.trim expr.toList
  if s.isEmpty then .error .emptyExpression
  else
    match firstComparison? s with
    | some (comparison, left, right) =>
      let key ← parseKey left
      let value ← parseValue right
      .ok (comparison.build key value)
    | none =>
      match s with
      | '!' :: rest => (parseKey rest).map .falsy
      | s => (parseKey s).map .truthy

/-! ## Writing -/

/-- The text of a condition; the value of a comparison is quoted. -/
def text : Predicate → String
  | .truthy k => k
  | .falsy k => "!" ++ k
  | .equals k v => k ++ " == " ++ Json.quote v
  | .notEquals k v => k ++ " != " ++ Json.quote v
  | .includes k v => k ++ " contains " ++ Json.quote v

/-! ## Meaning -/

/-- Whether a value displays as a text. -/
def displaysAs (text : String) (v : Json) : Bool := v.display == text

/-- A text includes each of its parts, an array each value that displays as the text. -/
def valueIncludes (text : String) : Json → Bool
  | .str s => Text.occursIn text s
  | .arr items => items.any (displaysAs text)
  | _ => false

/-- Whether a condition holds; a path without a value is false and equal to nothing. -/
def holds (r : Region) (p : Predicate) : Bool :=
  let value := r.lookup? p.key.toList
  match p with
  | .truthy _ => value.any Json.isTruthy
  | .falsy _ => !value.any Json.isTruthy
  | .equals _ text => value.any (displaysAs text)
  | .notEquals _ text => !value.any (displaysAs text)
  | .includes _ text => value.any (valueIncludes text)

end Predicate

end Playbook
