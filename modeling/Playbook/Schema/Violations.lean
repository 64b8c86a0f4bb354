import Playbook.Schema
import Playbook.Schema.WellFormed
import Playbook.Json.Printer

/-! # A compiler of schemas

`Schema.violations` lists what is wrong with a value, in the order of the schema's keywords. Keywords
that do not concern the type of the value say nothing about it, and those that only another program knows are
passed over. `Schema.standard` is the compiler with which the commands run; nothing that is proved rests on it.
-/

namespace Playbook.Schema

/-! ## Numbers and equality -/

/-- The order of two numbers by value; none if one is no number. -/
def compareNumbers? : Json → Json → Option Ordering
  | .int a, .int b => some (compare a b)
  | .double a, .int b => some (a.compareInt b)
  | .int a, .double b => some (b.compareInt a).swap
  | .double a, .double b => some (compare a.rank b.rank)
  | _, _ => none

mutual

/-- Equality of values in which numbers are equal by value. -/
def same : Json → Json → Bool
  | .arr as, .arr bs => sameItems as bs
  | .obj as, .obj bs => sameFields as bs
  | a, b =>
    match compareNumbers? a b with
    | some o => o == .eq
    | none => a == b

def sameItems : List Json → List Json → Bool
  | [], [] => true
  | a :: as, b :: bs => same a b && sameItems as bs
  | _, _ => false

def sameFields : List (String × Json) → List (String × Json) → Bool
  | [], [] => true
  | (k, a) :: as, (l, b) :: bs => k == l && same a b && sameFields as bs
  | _, _ => false

end

/-! ## Types -/

/-- Whether a value has the type of this name. -/
def hasType (v : Json) : String → Bool
  | "array" => v.arr?.isSome
  | "boolean" => isTruth v
  | "integer" => (toInt? v).isSome
  | "null" => v == .null
  | "number" => isNumber v
  | "object" => v.obj?.isSome
  | "string" => isText v
  | _ => false

def quoted (s : String) : String := "\"" ++ s ++ "\""

def typeViolations (expected : Json) (v : Json) : List String :=
  match expected with
  | .str name => if hasType v name then [] else [v.compact ++ " is not of type " ++ quoted name]
  | .arr names =>
    let names := names.filterMap Json.str?
    if names.any (hasType v) then []
    else
      let sorted := names.mergeSort (fun a b => a ≤ b)
      [v.compact ++ " is not of types " ++ Text.join ", " (sorted.map quoted)]
  | _ => []

/-! ## Plain keywords -/

/-- The alternatives of an enumeration: all of them if there are at most three, else two and a count. -/
def alternatives (options : List Json) : String :=
  let texts := options.map Json.compact
  if texts.length ≤ 3 then
    match texts.reverse with
    | [] => ""
    | [only] => only
    | last :: others => Text.join ", " others.reverse ++ " or " ++ last
  else
    Text.join ", " (texts.take 2) ++ " or " ++ toString (texts.length - 2) ++ " other candidates"

def plural (n : Nat) (word : String) : String :=
  toString n ++ " " ++ word ++ (if n = 1 then "" else "s")

/-- A bound on a number. -/
def boundViolations (bound v : Json) (bad : Ordering → Bool) (text : String) : List String :=
  match compareNumbers? v bound with
  | some o => if bad o then [v.compact ++ text ++ bound.compact] else []
  | none => []

/-- A bound on a size. -/
def sizeViolations (limit : Json) (size? : Option Nat) (bad : Nat → Nat → Bool) (v : Json)
    (text word : String) : List String :=
  match size?, toInt? limit with
  | some size, some limit =>
    if bad size limit.toNat then [v.compact ++ text ++ plural limit.toNat word] else []
  | _, _ => []

def textSize? (v : Json) : Option Nat := v.str?.map String.length

def arraySize? (v : Json) : Option Nat := v.arr?.map List.length

def requiredViolations (names v : Json) : List String :=
  match names, v with
  | .arr names, .obj fields =>
    let missing := (names.filterMap Json.str?).filter (fun n => (Fields.get? n fields).isNone)
    missing.map (fun n => Json.quote n ++ " is a required property")
  | _, _ => []

/-- Refuses the fields that are not declared. -/
def additionalViolations (declared : List String) (v : Json) : List String :=
  match v with
  | .obj fields =>
    let names := (fields.map (·.1)).filter (fun n => !declared.contains n)
    if names.isEmpty then []
    else
      let list := Text.join ", " (names.map (fun n => "'" ++ n ++ "'"))
      let verb := if names.length = 1 then " was unexpected)" else " were unexpected)"
      ["Additional properties are not allowed (" ++ list ++ verb]
  | _ => []

/-- The keywords whose values hold no schemas. -/
def plainViolations (keyword : String) (s v : Json) : List String :=
  match keyword with
  | "type" => typeViolations s v
  | "const" => if same s v then [] else [s.compact ++ " was expected"]
  | "enum" =>
    match s with
    | .arr options =>
      if options.any (fun o => same o v) then []
      else [v.compact ++ " is not one of " ++ alternatives options]
    | _ => []
  | "required" => requiredViolations s v
  | "minimum" => boundViolations s v (· == .lt) " is less than the minimum of "
  | "maximum" => boundViolations s v (· == .gt) " is greater than the maximum of "
  | "exclusiveMinimum" =>
    boundViolations s v (· != .gt) " is less than or equal to the minimum of "
  | "exclusiveMaximum" =>
    boundViolations s v (· != .lt) " is greater than or equal to the maximum of "
  | "minLength" =>
    sizeViolations s (textSize? v) (fun n l => n < l) v " is shorter than " "character"
  | "maxLength" =>
    sizeViolations s (textSize? v) (fun n l => l < n) v " is longer than " "character"
  | "minItems" => sizeViolations s (arraySize? v) (fun n l => n < l) v " has less than " "item"
  | "maxItems" => sizeViolations s (arraySize? v) (fun n l => l < n) v " has more than " "item"
  | _ => []

/-! ## Schemas -/

/-- The names of an object's fields. -/
def declaredNames (fields : List (String × Json)) : List String :=
  match Fields.get? "properties" fields with
  | some (.obj properties) => properties.map (·.1)
  | _ => []

/-- The messages by keyword in the order in which they are given. Where undeclared fields are refused,
the declared ones are checked just before. -/
def arrange (refusesOthers : Bool) (byKeyword : List (String × List String)) : List String :=
  if refusesOthers then
    let properties := (Fields.get? "properties" byKeyword).getD []
    byKeyword.flatMap (fun p =>
      if p.1 = "additionalProperties" then properties ++ p.2
      else if p.1 = "properties" then []
      else p.2)
  else byKeyword.flatMap (·.2)

/-- The items of an array, each against the same schema. -/
def itemViolations (check : Json → List String) (v : Json) : List String :=
  match v with
  | .arr items => items.flatMap check
  | _ => []

/-- The message for a value that satisfies a schema it must not satisfy. -/
def negated (satisfied : Bool) (s v : Json) : List String :=
  if satisfied then [s.compact ++ " is not allowed for " ++ v.compact] else []

mutual

/-- What is wrong with a value. -/
def violations : Json → Json → List String
  | .bool false, v => ["False schema does not allow " ++ v.compact]
  | .obj fields, v =>
    arrange (Fields.get? "additionalProperties" fields == some (.bool false))
      (keywordViolations (declaredNames fields) fields v)
  | _, _ => []

def keywordViolations (declared : List String) :
    List (String × Json) → Json → List (String × List String)
  | [], _ => []
  | (keyword, s) :: rest, v =>
    (keyword,
      match s with
      | .obj fields =>
        if keyword = "properties" then propertyViolations fields v
        else if keyword = "items" then itemViolations (violations (.obj fields)) v
        else if keyword = "not" then
          negated (violations (.obj fields) v).isEmpty (.obj fields) v
        else plainViolations keyword (.obj fields) v
      | .arr ss =>
        if keyword = "anyOf" then
          if anyValid ss v then []
          else [v.compact ++ " is not valid under any of the schemas listed in the 'anyOf' keyword"]
        else plainViolations keyword (.arr ss) v
      | .bool b =>
        if keyword = "additionalProperties" then
          if b then [] else additionalViolations declared v
        else if keyword = "items" then itemViolations (violations (.bool b)) v
        else if keyword = "not" then negated (violations (.bool b) v).isEmpty (.bool b) v
        else plainViolations keyword (.bool b) v
      | s => plainViolations keyword s v) :: keywordViolations declared rest v

def propertyViolations : List (String × Json) → Json → List String
  | [], _ => []
  | (name, s) :: rest, v =>
    (match v.field? name with
      | some w => violations s w
      | none => []) ++ propertyViolations rest v

def anyValid : List Json → Json → Bool
  | [], _ => false
  | s :: ss, v => (violations s v).isEmpty || anyValid ss v

end

instance standard : Compiler where
  compile schema :=
    if isWellFormed schema then .ok ⟨fun v => (violations schema v).isEmpty, violations schema⟩
    else .error "it is no schema"

end Playbook.Schema
