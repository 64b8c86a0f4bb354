import Playbook.Json.Basic

/-! # Records inside values

A record is written as an object by the names of its fields, or as an array by their positions. Fields
that the record does not know are ignored in an object and refused in an array. `Json.record?` opens a
value as a record, and the readers below take one field out of it. What formats other than plain values
allow beyond this is told by a `RecordForm`.
-/

namespace Playbook

/-- The fields of an opened record. -/
structure Record where
  /-- What is written for a field. -/
  look : String → Option Json
  /-- Written as an array. -/
  positional : Bool

/-- How records and names are written. -/
structure RecordForm where
  /-- Whether an array may have more items than the record has fields. -/
  takesLonger : Bool
  /-- What may stand behind a name that is the only key of an object. -/
  isBlank : Json → Bool

namespace RecordForm

/-- Plain values: nothing but null is blank. -/
def plain : RecordForm := ⟨false, fun v => v == .null⟩

/-- What lies inside of a kind that is told by a tag: an empty object is blank as well. -/
def tagged : RecordForm := ⟨false, fun v => v == .null || v == .obj []⟩

/-- TOML, which has no null. -/
def toml : RecordForm := ⟨true, fun v => v == .arr [] || v == .obj []⟩

end RecordForm

namespace Json

/-- Opens a value as a record with these field names. -/
def recordIn? (form : RecordForm) (names : List String) (v : Json) : Option Record :=
  match v with
  | .obj fields => some ⟨fun key => Fields.get? key fields, false⟩
  | .arr items =>
    if form.takesLonger || items.length ≤ names.length then
      let pairs := names.zip items
      some ⟨fun key => (pairs.find? (fun p => p.1 == key)).map (·.2), true⟩
    else none
  | _ => none

/-- Opens a plain value as a record. -/
def record? (names : List String) (v : Json) : Option Record := v.recordIn? .plain names

/-! ## Plain values -/

def toBool? : Json → Option Bool
  | .bool b => some b
  | _ => none

/-- A count below a bound. -/
def toCount? (bound : Nat) : Json → Option Nat
  | .int n => if 0 ≤ n && n < (bound : Int) then some n.toNat else none
  | _ => none

/-- A count of at most 64 bits. -/
def toWord? : Json → Option Nat := toCount? 0x10000000000000000

/-- A number; an integer stands for the nearest double. -/
def toDouble? : Json → Option Double
  | .double d => some d
  | .int n => some (Double.ofInt n)
  | _ => none

/-- Null or a value of the given form. -/
def nullable {α : Type} (read : Json → Option α) : Json → Option (Option α)
  | .null => some none
  | v => (read v).map some

/-- A list whose items all have the given form. -/
def listOf? {α : Type} (read : Json → Option α) : Json → Option (List α)
  | .arr items => items.mapM read
  | _ => none

/-- A dictionary whose values all have the given form. -/
def dictOf? {α : Type} (read : Json → Option α) : Json → Option (Dict α)
  | .obj fields => do
    let pairs ← fields.mapM (fun f => (read f.2).map (fun v => (f.1, v)))
    some (Dict.ofList pairs)
  | _ => none

/-- One of a closed set of names: the name itself, or an object with that name as its only key and a
blank behind it. -/
def choiceIn? {α : Type} (form : RecordForm) (read : String → Option α) : Json → Option α
  | .str s => read s
  | .obj [(s, v)] => if form.isBlank v then read s else none
  | _ => none

/-- One of a closed set of names in a plain value. -/
def choice? {α : Type} (read : String → Option α) : Json → Option α := choiceIn? .plain read

/-- One of a closed set of names inside of a kind that is told by a tag. -/
def taggedChoice? {α : Type} (read : String → Option α) : Json → Option α := choiceIn? .tagged read

end Json

namespace Record

variable {α : Type}

/-- A field that must be written. -/
def required (r : Record) (name : String) (read : Json → Option α) : Option α :=
  (r.look name).bind read

/-- A field with a default. -/
def defaulted (r : Record) (name : String) (read : Json → Option α) (default : α) : Option α :=
  match r.look name with
  | some v => read v
  | none => some default

/-- A field that may be absent or null. -/
def optional (r : Record) (name : String) (read : Json → Option α) : Option (Option α) :=
  r.defaulted name (Json.nullable read) none

/-- A field that may be null, and absent from an object but not from an array. -/
def optionalByName (r : Record) (name : String) (read : Json → Option α) : Option (Option α) :=
  match r.look name with
  | some v => Json.nullable read v
  | none => if r.positional then none else some none

end Record

end Playbook
