import Playbook.Dict
import Playbook.Number.Double

/-! # Values

The values that documents, arguments, tools and models exchange. A number without fraction and exponent
that fits into 64 bits is an integer, every other one a double; an object lists its fields in the order
of their keys.

Main statement: `Json.beq_iff_eq` makes equality of values decidable.
-/

namespace Playbook

/-- A structured value. -/
inductive Json where
  | null
  | bool (b : Bool)
  | int (n : Int)
  | double (d : Double)
  | str (s : String)
  | arr (items : List Json)
  | obj (fields : List (String × Json))
  deriving Repr, Inhabited

namespace Json

/-! ## Equality -/

mutual

/-- Whether two values are built alike. -/
def beq : Json → Json → Bool
  | .null, .null => true
  | .bool a, .bool b => a == b
  | .int a, .int b => a == b
  | .double a, .double b => a == b
  | .str a, .str b => a == b
  | .arr a, .arr b => beqItems a b
  | .obj a, .obj b => beqFields a b
  | _, _ => false

def beqItems : List Json → List Json → Bool
  | [], [] => true
  | a :: as, b :: bs => beq a b && beqItems as bs
  | _, _ => false

def beqFields : List (String × Json) → List (String × Json) → Bool
  | [], [] => true
  | (k, a) :: as, (l, b) :: bs => k == l && beq a b && beqFields as bs
  | _, _ => false

end

mutual

theorem beq_iff_eq : ∀ a b : Json, beq a b = true ↔ a = b
  | .null, b => by cases b <;> simp [beq]
  | .bool _, b => by cases b <;> simp [beq]
  | .int _, b => by cases b <;> simp [beq]
  | .double _, b => by cases b <;> simp [beq]
  | .str _, b => by cases b <;> simp [beq]
  | .arr as, b => by cases b <;> simp [beq, beqItems_iff_eq]
  | .obj as, b => by cases b <;> simp [beq, beqFields_iff_eq]

theorem beqItems_iff_eq : ∀ as bs : List Json, beqItems as bs = true ↔ as = bs
  | [], bs => by cases bs <;> simp [beqItems]
  | a :: as, bs => by cases bs <;> simp [beqItems, beq_iff_eq a, beqItems_iff_eq as]

theorem beqFields_iff_eq : ∀ as bs : List (String × Json), beqFields as bs = true ↔ as = bs
  | [], bs => by cases bs <;> simp [beqFields]
  | (k, a) :: as, bs => by
    cases bs with
    | nil => simp [beqFields]
    | cons head bs =>
      obtain ⟨l, b⟩ := head
      simp [beqFields, beq_iff_eq a, beqFields_iff_eq as]

end

instance : DecidableEq Json := fun a b => decidable_of_iff _ (beq_iff_eq a b)

/-! ## Parts -/

/-- The integers that are kept as integers: those of 64 bits, with or without a sign. -/
def isWordInt (n : Int) : Bool := -0x8000000000000000 ≤ n && n < 0x10000000000000000

def str? : Json → Option String
  | .str s => some s
  | _ => none

def arr? : Json → Option (List Json)
  | .arr items => some items
  | _ => none

def obj? : Json → Option (List (String × Json))
  | .obj fields => some fields
  | _ => none

/-- The field of an object with this key. -/
def field? (v : Json) (key : String) : Option Json :=
  match v with
  | .obj fields => Fields.get? key fields
  | _ => none

/-- The item of an array at this position. -/
def item? (v : Json) (i : Nat) : Option Json :=
  match v with
  | .arr items => items[i]?
  | _ => none

/-- An object from its fields in any order; the last field with a key wins. -/
def ofFields (fields : List (String × Json)) : Json := .obj (Dict.ofList fields).entries

/-- What may be absent is null when it is. -/
def ofOption {α : Type} (write : α → Json) : Option α → Json
  | some a => write a
  | none => .null

def ofDict (d : Dict Json) : Json := .obj d.entries

/-- An object or list counts as true when it is not empty, a number when it is not zero, a text when it
is neither empty nor the word false. -/
def isTruthy : Json → Bool
  | .null => false
  | .bool b => b
  | .int n => n != 0
  | .double d => !d.isZero && !d.isNaN
  | .str s => s != "" && s != "false"
  | .arr items => !items.isEmpty
  | .obj fields => !fields.isEmpty

end Json

end Playbook
