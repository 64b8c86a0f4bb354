import Playbook.Json.Parser
import Playbook.Time

/-! # Scalars of configuration documents

Strings in their four forms, integers in four bases, floats, truth values and dates. Each reader takes
the characters that are left and answers what it read together with the rest.
-/

namespace Playbook.Toml

/-! ## Blanks -/

def isSpace (c : Char) : Bool := c = ' ' || c = '\t'

def skipSpace (s : List Char) : List Char := s.dropWhile isSpace

/-- A control character that no comment and no string may hold as it stands. -/
def isForbidden (c : Char) : Bool := (c.toNat < 0x20 && c != '\t') || c.toNat = 0x7f

/-- What follows the end of a line, if one stands here. -/
def newline? : List Char → Option (List Char)
  | '\n' :: rest => some rest
  | '\r' :: '\n' :: rest => some rest
  | _ => none

/-- Drops blanks and line ends. -/
def skipBlank : List Char → List Char
  | '\n' :: rest => skipBlank rest
  | '\r' :: '\n' :: rest => skipBlank rest
  | c :: rest => if isSpace c then skipBlank rest else c :: rest
  | [] => []

/-- A comment up to the end of its line. -/
def skipComment : List Char → List Char
  | '#' :: rest => rest.dropWhile (fun c => !isForbidden c)
  | s => s

/-- Blanks, comments and line ends. The bound counts the lines. -/
def skipLines : Nat → List Char → List Char
  | 0, s => s
  | n + 1, s =>
    let s := skipComment (skipSpace s)
    match newline? s with
    | some rest => skipLines n rest
    | none => s

/-! ## Strings -/

/-- The character of a number of hexadecimal digits; surrogates are none. -/
def codePoint (count : Nat) (s : List Char) : Option (Char × List Char) := do
  let ds := s.take count
  if ds.length != count then none
  else
    let vs ← ds.mapM Json.Parser.hexValue?
    let n := vs.foldl (fun n v => n * 16 + v) 0
    if n < 0xD800 || (0xDFFF < n && n < 0x110000) then some (Char.ofNat n, s.drop count) else none

/-- The character behind a backslash. -/
def escape : List Char → Option (Char × List Char)
  | 'b' :: rest => some ('\x08', rest)
  | 't' :: rest => some ('\t', rest)
  | 'n' :: rest => some ('\n', rest)
  | 'f' :: rest => some ('\x0c', rest)
  | 'r' :: rest => some ('\r', rest)
  | '"' :: rest => some ('"', rest)
  | '\\' :: rest => some ('\\', rest)
  | 'u' :: rest => codePoint 4 rest
  | 'U' :: rest => codePoint 8 rest
  | _ => none

/-- The rest of a string between single quotes or double quotes on one line. -/
def lineBody (quote : Char) (escapes : Bool) : Nat → List Char → Option (List Char × List Char)
  | 0, _ => none
  | _ + 1, [] => none
  | n + 1, c :: rest =>
    if c = quote then some ([], rest)
    else if escapes && c = '\\' then do
      let (c, rest) ← escape rest
      let (body, rest) ← lineBody quote escapes n rest
      some (c :: body, rest)
    else if isForbidden c then none
    else do
      let (body, rest) ← lineBody quote escapes n rest
      some (c :: body, rest)

/-- What follows a backslash at the end of a line: blanks and line ends up to the next character. -/
def foldedLine? (s : List Char) : Option (List Char) :=
  match newline? (skipSpace s) with
  | some rest => some (skipBlank rest)
  | none => none

/-- The rest of a string over several lines. Up to two quotes may stand before the closing three. -/
def linesBody (quote : Char) (escapes : Bool) : Nat → List Char → Option (List Char × List Char)
  | 0, _ => none
  | _ + 1, [] => none
  | n + 1, c :: rest =>
    if c = quote then
      let run := (c :: rest).takeWhile (· == quote)
      if 3 ≤ run.length then
        if 5 < run.length then none
        else some (List.replicate (run.length - 3) quote, (c :: rest).drop run.length)
      else do
        let (body, rest) ← linesBody quote escapes n rest
        some (c :: body, rest)
    else if escapes && c = '\\' then
      match foldedLine? rest with
      | some rest => linesBody quote escapes n rest
      | none => do
        let (c, rest) ← escape rest
        let (body, rest) ← linesBody quote escapes n rest
        some (c :: body, rest)
    else if c = '\n' then do
      let (body, rest) ← linesBody quote escapes n rest
      some ('\n' :: body, rest)
    else if c = '\r' then
      match rest with
      | '\n' :: rest => do
        let (body, rest) ← linesBody quote escapes n rest
        some ('\n' :: body, rest)
      | _ => none
    else if isForbidden c then none
    else do
      let (body, rest) ← linesBody quote escapes n rest
      some (c :: body, rest)

/-- A line end right after the opening quotes is not part of the string. -/
def dropFirstLine (s : List Char) : List Char := (newline? s).getD s

/-- A string on one line, from its opening quote on. -/
def lineString : List Char → Option (String × List Char)
  | '"' :: rest => (lineBody '"' true (rest.length + 1) rest).map (fun p => (String.ofList p.1, p.2))
  | '\'' :: rest =>
    (lineBody '\'' false (rest.length + 1) rest).map (fun p => (String.ofList p.1, p.2))
  | _ => none

/-- A string of any form, from its opening quotes on. -/
def string : List Char → Option (String × List Char)
  | '"' :: '"' :: '"' :: rest =>
    (linesBody '"' true (rest.length + 1) (dropFirstLine rest)).map
      (fun p => (String.ofList p.1, p.2))
  | '\'' :: '\'' :: '\'' :: rest =>
    (linesBody '\'' false (rest.length + 1) (dropFirstLine rest)).map
      (fun p => (String.ofList p.1, p.2))
  | s => lineString s

/-! ## Numbers -/

/-- A row of digits with single underscores between them, and what follows. -/
def digitRow (isDigit : Char → Bool) : List Char → Option (List Char × List Char)
  | [] => none
  | c :: rest =>
    if isDigit c then some (more [c] rest) else none
where
  more (taken : List Char) : List Char → List Char × List Char
    | [] => (taken.reverse, [])
    | c :: rest =>
      if isDigit c then more (c :: taken) rest
      else if c = '_' && rest.head?.any isDigit then more taken rest
      else (taken.reverse, c :: rest)

/-- A sign, if there is one, and whether it is a minus. -/
def sign : List Char → Option Bool × List Char
  | '+' :: rest => (some false, rest)
  | '-' :: rest => (some true, rest)
  | s => (none, s)

/-- The integers of 64 bits. -/
def wordInt? (n : Int) : Option Json :=
  if -0x8000000000000000 ≤ n && n < 0x8000000000000000 then some (.int n) else none

/-- Digits of a base behind its mark. -/
def basedInt (base : Nat) (isDigit : Char → Bool) (s : List Char) : Option (Json × List Char) := do
  let (ds, rest) ← digitRow isDigit s
  let vs ← ds.mapM Json.Parser.hexValue?
  let v ← wordInt? ((vs.foldl (fun n v => n * base + v) 0 : Nat) : Int)
  some (v, rest)

/-- The power of ten of a float, if it has one. -/
def exponent : List Char → Option (Option Int × List Char)
  | c :: rest =>
    if c = 'e' || c = 'E' then do
      let (s, rest) := sign rest
      let (ds, rest) ← digitRow Char.isDigit rest
      let n : Int := Json.Parser.decimal ds
      some (some (if s = some true then -n else n), rest)
    else some (none, c :: rest)
  | [] => some (none, [])

/-- The digits behind a point, if there is one. -/
def fraction : List Char → Option (Option (List Char) × List Char)
  | '.' :: rest => (digitRow Char.isDigit rest).map (fun p => (some p.1, p.2))
  | s => some (none, s)

def infinity (negative : Bool) : Double := ⟨if negative then 0xFFF0000000000000 else 0x7FF0000000000000⟩

def notANumber (negative : Bool) : Double :=
  ⟨if negative then 0xFFF8000000000000 else 0x7FF8000000000000⟩

/-- A number in decimal digits. -/
def decimalNumber (s : List Char) : Option (Json × List Char) := do
  let (sgn, s) := sign s
  let negative := sgn = some true
  let (ds, rest) ← digitRow Char.isDigit s
  if 1 < ds.length && ds.head? = some '0' then none
  else
    let (frac, rest) ← fraction rest
    let (power, rest) ← exponent rest
    match frac, power with
    | none, none =>
      let n : Int := Json.Parser.decimal ds
      let v ← wordInt? (if negative then -n else n)
      some (v, rest)
    | _, _ =>
      let places := frac.getD []
      let power := power.getD 0 - (places.length : Int)
      match Double.ofDecimal? negative (Json.Parser.decimal (ds ++ places)) power with
      | some d => some (.double d, rest)
      -- too large for a double: only below zero is it read, as an infinity
      | none => if negative then some (.double (infinity true), rest) else none

def isOctal (c : Char) : Bool := '0' ≤ c && c ≤ '7'

def isBinary (c : Char) : Bool := c = '0' || c = '1'

def isHex (c : Char) : Bool := (Json.Parser.hexValue? c).isSome

/-- A number of any form. -/
def number (s : List Char) : Option (Json × List Char) :=
  match s with
  | '0' :: 'x' :: rest => basedInt 16 isHex rest
  | '0' :: 'o' :: rest => basedInt 8 isOctal rest
  | '0' :: 'b' :: rest => basedInt 2 isBinary rest
  | s =>
    match sign s with
    | (sgn, 'i' :: 'n' :: 'f' :: rest) => some (.double (infinity (sgn = some true)), rest)
    | (sgn, 'n' :: 'a' :: 'n' :: rest) => some (.double (notANumber (sgn = some true)), rest)
    | _ => decimalNumber s

/-! ## Dates -/

/-- The key under which a date stands when a document is read as a value. -/
def dateKey : String := "$__toml_private_datetime"

/-- A date as its text. -/
def date (s : List Char) : Option (String × List Char) := do
  let (year, s) ← Time.fixedDigits 4 s
  let s ← Time.mark ['-'] s
  let (month, s) ← Time.fixedDigits 2 s
  let s ← Time.mark ['-'] s
  let (day, s) ← Time.fixedDigits 2 s
  if month < 1 || 12 < month || day < 1 || Time.daysInMonth year month < day then none
  else some (Time.padded 4 year ++ "-" ++ Time.padded 2 month ++ "-" ++ Time.padded 2 day, s)

/-- The fraction of a second without zeros at its end. -/
def clockFraction (nanos : Nat) : String :=
  if nanos = 0 then ""
  else
    let ds := (Time.padded 9 nanos).toList
    "." ++ String.ofList (ds.reverse.dropWhile (· == '0')).reverse

/-- A time of day as its text. -/
def clock (s : List Char) : Option (String × List Char) := do
  let (hour, s) ← Time.fixedDigits 2 s
  let s ← Time.mark [':'] s
  let (minute, s) ← Time.fixedDigits 2 s
  let s ← Time.mark [':'] s
  let (second, s) ← Time.fixedDigits 2 s
  let (nanos, s) ← Time.fraction s
  if 23 < hour || 59 < minute || 60 < second then none
  else
    some (Time.padded 2 hour ++ ":" ++ Time.padded 2 minute ++ ":" ++ Time.padded 2 second ++
      clockFraction nanos, s)

/-- A distance from UTC as its text, if one stands here. -/
def zone (s : List Char) : String × List Char :=
  match s with
  | 'Z' :: rest => ("Z", rest)
  | 'z' :: rest => ("Z", rest)
  | c :: rest =>
    if c = '+' || c = '-' then
      let read : Option (String × List Char) := do
        let (h, rest) ← Time.fixedDigits 2 rest
        let rest ← Time.mark [':'] rest
        let (m, rest) ← Time.fixedDigits 2 rest
        if h < 24 && m < 60 then
          some (String.singleton c ++ Time.padded 2 h ++ ":" ++ Time.padded 2 m, rest)
        else none
      read.getD ("", s)
    else ("", s)
  | [] => ("", [])

/-- A date, a time of day, or both, with or without a distance from UTC. -/
def moment (s : List Char) : Option (Json × List Char) :=
  let asValue (text : String) : Json := .obj [(dateKey, .str text)]
  match date s with
  | some (day, rest) =>
    let later : Option (String × List Char) := do
      let rest ← Time.mark ['T', 't', ' '] rest
      clock rest
    match later with
    | some (time, rest) =>
      let (away, rest) := zone rest
      some (asValue (day ++ "T" ++ time ++ away), rest)
    | none => some (asValue day, rest)
  | none => (clock s).map (fun p => (asValue p.1, p.2))

end Playbook.Toml
