import Playbook.Json.Basic
import Playbook.Json.Path

/-! # Which values are schemas

A schema is a truth value or an object whose keywords have values of the right form. Unknown keywords
are ignored. Patterns must be well-formed, and a reference must point to a place of the same document.

Main definition: `Schema.isWellFormed`.
-/

namespace Playbook.Schema

/-! ## Plain keywords -/

/-- An integer; a double without fraction counts as one. -/
def toInt? : Json → Option Int
  | .int n => some n
  | .double d => d.toInt?
  | _ => none

def isNumber : Json → Bool
  | .int _ => true
  | .double _ => true
  | _ => false

def isPositive : Json → Bool
  | .int n => 0 < n
  | .double d => Double.lt .zero d
  | _ => false

def isSize (v : Json) : Bool := (toInt? v).any (fun n => 0 ≤ n)

def isText (v : Json) : Bool := v.str?.isSome

def isTruth : Json → Bool
  | .bool _ => true
  | _ => false

def typeNames : List String :=
  ["array", "boolean", "integer", "null", "number", "object", "string"]

/-- Whether the texts of a list differ from each other. -/
def allDifferent (names : List String) : Bool :=
  match names with
  | [] => true
  | n :: rest => !rest.contains n && allDifferent rest

/-- A list of different texts. -/
def isTextSet (v : Json) : Bool :=
  match v with
  | .arr items => items.all isText && allDifferent (items.filterMap Json.str?)
  | _ => false

def isTypeName (v : Json) : Bool := v.str?.any typeNames.contains

/-- The name of a type, or several different ones. -/
def isTypeSet (v : Json) : Bool :=
  match v with
  | .arr items => !items.isEmpty && items.all isTypeName && isTextSet v
  | v => isTypeName v

def isArray (v : Json) : Bool := v.arr?.isSome

/-! ## Patterns -/

/-- Where the reader of a pattern stands: the open groups, and whether a repetition may follow. -/
structure PatternState where
  groups : Nat
  repeatable : Bool

/-- What follows the opening bracket of a character class, behind the closing one. -/
def skipClass : Nat → List Char → Option (List Char)
  | 0, _ => none
  | _ + 1, [] => none
  | _ + 1, '\\' :: [] => none
  | n + 1, '\\' :: _ :: rest => skipClass n rest
  | _ + 1, ']' :: rest => some rest
  | n + 1, _ :: rest => skipClass n rest

/-- What follows a group's opening parenthesis behind the mark of its kind. -/
def skipGroupKind : List Char → List Char
  | '?' :: ':' :: rest => rest
  | '?' :: '=' :: rest => rest
  | '?' :: '!' :: rest => rest
  | '?' :: '<' :: '=' :: rest => rest
  | '?' :: '<' :: '!' :: rest => rest
  | '?' :: '<' :: rest => (rest.dropWhile (· != '>')).drop 1
  | rest => rest

/-- Groups and classes are closed, and a repetition has something to repeat. -/
def isPatternFrom : Nat → PatternState → List Char → Bool
  | 0, _, _ => false
  | _ + 1, st, [] => st.groups == 0
  | n + 1, st, c :: rest =>
    if c = '\\' then
      match rest with
      | [] => false
      | _ :: rest => isPatternFrom n { st with repeatable := true } rest
    else if c = '[' then
      let rest := match rest with
        | '^' :: rest => rest
        | rest => rest
      match skipClass (rest.length + 1) rest with
      | some rest => isPatternFrom n { st with repeatable := true } rest
      | none => false
    else if c = '(' then isPatternFrom n ⟨st.groups + 1, false⟩ (skipGroupKind rest)
    else if c = ')' then st.groups != 0 && isPatternFrom n ⟨st.groups - 1, true⟩ rest
    else if c = '|' || c = '^' then isPatternFrom n { st with repeatable := false } rest
    else if c = '*' || c = '+' || c = '?' then
      st.repeatable &&
        isPatternFrom n { st with repeatable := false }
          (match rest with
            | '?' :: rest => rest
            | rest => rest)
    else isPatternFrom n { st with repeatable := true } rest

def isPattern (v : Json) : Bool :=
  v.str?.any (fun s => isPatternFrom (s.length + 1) ⟨0, false⟩ s.toList)

/-! ## References -/

/-- A segment of a pointer with its escapes undone. -/
def pointerSegment : List Char → List Char
  | '~' :: '1' :: rest => '/' :: pointerSegment rest
  | '~' :: '0' :: rest => '~' :: pointerSegment rest
  | c :: rest => c :: pointerSegment rest
  | [] => []

/-- Whether a reference points to the document itself or to a place inside of it. -/
def resolves (document : Json) (reference : Json) : Bool :=
  match reference with
  | .str s =>
    match s.toList with
    | ['#'] => true
    | '#' :: '/' :: path =>
      (document.follow? ((Text.segments '/' path).map pointerSegment)).isSome
    | _ => false
  | _ => false

/-! ## Keywords -/

/-- The form that the value of a keyword must have. -/
inductive Form where
  /-- No form: the keyword is unknown or takes any value. -/
  | any
  | plain (check : Json → Bool)
  | schema
  /-- An object of schemas. -/
  | schemas
  /-- An object of schemas that count only where a reference names them. -/
  | definitions
  /-- A list of at least one schema. -/
  | schemaList
  /-- A reference into the document. -/
  | reference

/-- The form of each keyword. -/
def formOf (keyword : String) : Form :=
  if ["items", "contains", "additionalProperties", "propertyNames", "if", "then", "else", "not",
      "unevaluatedItems", "unevaluatedProperties", "contentSchema"].contains keyword then .schema
  else if ["properties", "patternProperties", "dependentSchemas"].contains keyword then .schemas
  else if ["$defs", "definitions"].contains keyword then .definitions
  else if ["prefixItems", "allOf", "anyOf", "oneOf"].contains keyword then .schemaList
  else if keyword = "$ref" then .reference
  else if keyword = "type" then .plain isTypeSet
  else if keyword = "enum" || keyword = "examples" then .plain isArray
  else if keyword = "required" then .plain isTextSet
  else if keyword = "pattern" then .plain isPattern
  else if keyword = "multipleOf" then .plain isPositive
  else if ["minimum", "maximum", "exclusiveMinimum", "exclusiveMaximum"].contains keyword then
    .plain isNumber
  else if ["minLength", "maxLength", "minItems", "maxItems", "minProperties", "maxProperties",
      "minContains", "maxContains"].contains keyword then .plain isSize
  else if ["uniqueItems", "deprecated", "readOnly", "writeOnly"].contains keyword then .plain isTruth
  else if ["title", "description", "format", "contentEncoding", "contentMediaType", "$comment",
      "$anchor", "$dynamicAnchor", "$dynamicRef", "$id", "$schema"].contains keyword then .plain isText
  else if keyword = "dependentRequired" then
    .plain (fun v => v.obj?.any (fun fields => fields.all (fun f => isTextSet f.2)))
  else .any

mutual

/-- Whether a value is a schema of a document. References are followed where `counts` says so. -/
def isWellFormedIn (document : Json) (counts : Bool) : Json → Bool
  | .bool _ => true
  | .obj fields => keywordsWellFormed document counts fields
  | _ => false

def keywordsWellFormed (document : Json) (counts : Bool) : List (String × Json) → Bool
  | [] => true
  | (keyword, v) :: rest =>
    (match formOf keyword, v with
      | .any, _ => true
      | .plain check, v => check v
      | .schema, v => isWellFormedIn document counts v
      | .schemas, .obj fields => schemasWellFormed document counts fields
      | .schemas, _ => false
      | .definitions, .obj fields => schemasWellFormed document false fields
      | .definitions, _ => false
      | .schemaList, .arr (s :: ss) =>
        isWellFormedIn document counts s && listWellFormed document counts ss
      | .schemaList, _ => false
      | .reference, v => isText v && (!counts || resolves document v)) &&
      keywordsWellFormed document counts rest

def schemasWellFormed (document : Json) (counts : Bool) : List (String × Json) → Bool
  | [] => true
  | (_, s) :: rest => isWellFormedIn document counts s && schemasWellFormed document counts rest

def listWellFormed (document : Json) (counts : Bool) : List Json → Bool
  | [] => true
  | s :: ss => isWellFormedIn document counts s && listWellFormed document counts ss

end

/-- Whether a value is a schema. -/
def isWellFormed (v : Json) : Bool := isWellFormedIn v true v

end Playbook.Schema
