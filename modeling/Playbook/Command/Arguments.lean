/-! # Arguments of a command line

Splits a list of arguments into options and operands. An option is written by its long name or by a letter,
with its value behind an equals sign or as the next argument; two dashes end the options.
-/

namespace Playbook

/-- An option that may be given. -/
structure OptionSpec where
  long : String
  letter : Option Char
  takesValue : Bool
  /-- Whether it may be given more than once. -/
  isRepeatable : Bool
  deriving DecidableEq, Repr

/-- What was given, in its order. -/
structure Arguments where
  options : List (String × String)
  operands : List String
  deriving DecidableEq, Repr

namespace Arguments

def empty : Arguments := ⟨[], []⟩

def addOption (a : Arguments) (name value : String) : Arguments :=
  { a with options := (name, value) :: a.options }

def addOperands (a : Arguments) (more : List String) : Arguments :=
  { a with operands := more ++ a.operands }

/-- The values of an option. -/
def values (a : Arguments) (name : String) : List String :=
  (a.options.filter (fun o => o.1 == name)).map (·.2)

def value? (a : Arguments) (name : String) : Option String := (a.values name).head?

/-- Whether an argument looks like an option. -/
def looksLikeOption (arg : String) : Bool := arg.startsWith "-" && arg != "-"

/-- The spelling of an option: its name with the value behind it, if there is one. -/
def spelling? (specs : List OptionSpec) (arg : String) : Option (OptionSpec × Option String) :=
  match arg.toList with
  | '-' :: '-' :: rest =>
    let name := rest.takeWhile (· != '=')
    let value := rest.drop name.length
    (specs.find? (fun s => s.long.toList == name)).map (fun s =>
      (s, if value.isEmpty then none else some (String.ofList (value.drop 1))))
  | '-' :: letter :: rest =>
    (specs.find? (fun s => s.letter == some letter)).map (fun s =>
      let value := if rest.head? = some '=' then rest.drop 1 else rest
      (s, if rest.isEmpty then none else some (String.ofList value)))
  | _ => none

/-- Reads arguments; `firstOnly` leaves everything from the first operand on unread, and wants no dashes in
front of it. -/
def read (specs : List OptionSpec) (firstOnly : Bool) : List String → Option Arguments
  | [] => some .empty
  | arg :: rest =>
    if arg = "--" then if firstOnly then none else some (Arguments.empty.addOperands rest)
    else if looksLikeOption arg then
      match spelling? specs arg with
      | none => none
      | some (spec, value) =>
        match spec.takesValue, value with
        | false, none => (read specs firstOnly rest).map (·.addOption spec.long "")
        | false, some _ => none
        | true, some v => (read specs firstOnly rest).map (·.addOption spec.long v)
        | true, none =>
          match rest with
          | [] => none
          | v :: rest =>
            if looksLikeOption v then none
            else (read specs firstOnly rest).map (·.addOption spec.long v)
    else if firstOnly then some (Arguments.empty.addOperands (arg :: rest))
    else (read specs firstOnly rest).map (·.addOperands [arg])

/-- Whether no option was given too often. -/
def isUnambiguous (specs : List OptionSpec) (a : Arguments) : Bool :=
  specs.all (fun s => s.isRepeatable || (a.values s.long).length ≤ 1)

/-- Reads arguments in which no option is given too often. -/
def parse? (specs : List OptionSpec) (firstOnly : Bool) (args : List String) : Option Arguments :=
  (read specs firstOnly args).filter (isUnambiguous specs)

end Arguments

end Playbook
