import Playbook.Json.Basic
import Playbook.Number.Shortest

/-! # Writing values

The compact text of a value: no blanks, the fields of an object in the order of their keys, and the
fewest escapes that the format allows.
-/

namespace Playbook.Json

/-! ## Strings -/

/-- A hexadecimal digit in lower case. -/
def hexDigit (n : Nat) : Char := if n < 10 then Char.ofNat (48 + n) else Char.ofNat (87 + n)

/-- A quote, a backslash and the control characters are escaped; all else stands for itself. -/
def escapeChar (c : Char) : List Char :=
  if c = '"' then ['\\', '"']
  else if c = '\\' then ['\\', '\\']
  else if c = '\x08' then ['\\', 'b']
  else if c = '\x0c' then ['\\', 'f']
  else if c = '\n' then ['\\', 'n']
  else if c = '\r' then ['\\', 'r']
  else if c = '\t' then ['\\', 't']
  else if c.toNat < 0x20 then
    ['\\', 'u', '0', '0', hexDigit (c.toNat / 16), hexDigit (c.toNat % 16)]
  else [c]

/-- A text between quotes. -/
def quoteChars (s : List Char) : List Char := '"' :: (s.flatMap escapeChar ++ ['"'])

/-- A string between quotes. -/
def quote (s : String) : String := String.ofList (quoteChars s.toList)

/-! ## Values -/

mutual

/-- The compact text of a value. A number that is not finite has no text of its own and is null. -/
def compact : Json → String
  | .null => "null"
  | .bool true => "true"
  | .bool false => "false"
  | .int n => toString n
  | .double d => if d.isFinite then Layout.document.text d else "null"
  | .str s => quote s
  | .arr [] => "[]"
  | .arr (v :: vs) => "[" ++ compact v ++ compactItems vs ++ "]"
  | .obj [] => "\x7b\x7d"
  | .obj ((k, v) :: fs) => "\x7b" ++ quote k ++ ":" ++ compact v ++ compactFields fs ++ "\x7d"

/-- The items after the first, each behind a comma. -/
def compactItems : List Json → String
  | [] => ""
  | v :: vs => "," ++ compact v ++ compactItems vs

/-- The fields after the first, each behind a comma. -/
def compactFields : List (String × Json) → String
  | [] => ""
  | (k, v) :: fs => "," ++ quote k ++ ":" ++ compact v ++ compactFields fs

end

/-- A text stands for itself, any other value for its compact text. -/
def display : Json → String
  | .str s => s
  | v => compact v

end Playbook.Json
