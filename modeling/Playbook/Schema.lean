import Playbook.Json.Basic

/-! # Schemas

What a model answers may be bound to a schema. Which values are schemas and what violates them is not decided here:
a `Schema.Compiler` says it, and everything that reads or runs playbooks takes one as a parameter.
-/

namespace Playbook.Schema

/-- A compiled schema. -/
structure Validator where
  accepts : Json → Bool
  /-- What is wrong with a value, one message for each violation. -/
  messages : Json → List String

/-- Compiles schemas, or says why a value is none. -/
class Compiler where
  compile : Json → Except String Validator

namespace Compiler

/-- Why a value is no schema, if it is none. -/
def fault? (S : Compiler) (schema : Json) : Option String :=
  match S.compile schema with
  | .ok _ => none
  | .error reason => some reason

/-- Whether a value is a schema. -/
def compiles (S : Compiler) (schema : Json) : Bool := (S.fault? schema).isNone

theorem fault?_eq_none_iff {S : Compiler} {schema : Json} :
    S.fault? schema = none ↔ S.compiles schema = true :=
  Option.isNone_iff_eq_none.symm

/-- What is a schema is not refused. -/
theorem compile_ne_error {S : Compiler} {schema : Json} (h : S.compiles schema = true) (reason : String) :
    S.compile schema ≠ .error reason := by
  intro hc
  rw [compiles, fault?, hc] at h
  cases h

end Compiler

/-- How the complaint begins that a value is no schema. -/
def complaint : String := "invalid response schema"

end Playbook.Schema
