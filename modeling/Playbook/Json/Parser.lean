import Playbook.Json.Basic

/-! # Reading values

A reader for the standard text of values. Each reader takes the characters that are left and answers
what it read together with the rest, or nothing if the text is ill-formed. Nesting is bounded, and of
two fields with one key the later stands.
-/

namespace Playbook.Json.Parser

def isSpace (c : Char) : Bool := c = ' ' || c = '\n' || c = '\t' || c = '\r'

def skipSpace (s : List Char) : List Char := s.dropWhile isSpace

/-! ## Strings -/

def hexValue? (c : Char) : Option Nat :=
  let n := c.toNat
  if 48 ≤ n && n ≤ 57 then some (n - 48)
  else if 97 ≤ n && n ≤ 102 then some (n - 87)
  else if 65 ≤ n && n ≤ 70 then some (n - 55)
  else none

/-- Four hexadecimal digits. -/
def hex4 : List Char → Option (Nat × List Char)
  | a :: b :: c :: d :: rest => do
    let a ← hexValue? a
    let b ← hexValue? b
    let c ← hexValue? c
    let d ← hexValue? d
    some (a * 4096 + b * 256 + c * 16 + d, rest)
  | _ => none

/-- The letter of a short escape and the character it stands for. -/
def shortEscape? : Char → Option Char
  | '"' => some '"'
  | '\\' => some '\\'
  | '/' => some '/'
  | 'b' => some '\x08'
  | 'f' => some '\x0c'
  | 'n' => some '\n'
  | 'r' => some '\r'
  | 't' => some '\t'
  | _ => none

/-- The character after the letter `u` of an escape: one code unit, or a high surrogate followed at
once by the escape of a low one. -/
def unicodeEscape (s : List Char) : Option (Char × List Char) := do
  let (high, rest) ← hex4 s
  -- a low surrogate on its own, or a high one without its low one, denotes no character
  if 0xDC00 ≤ high && high ≤ 0xDFFF then none
  else if 0xD800 ≤ high && high ≤ 0xDBFF then
    match rest with
    | '\\' :: 'u' :: rest =>
      let (low, rest) ← hex4 rest
      if 0xDC00 ≤ low && low ≤ 0xDFFF then
        some (Char.ofNat (0x10000 + (high - 0xD800) * 0x400 + (low - 0xDC00)), rest)
      else none
    | _ => none
  else some (Char.ofNat high, rest)

/-- The characters up to the closing quote. The bound counts the characters that may still be read. -/
def stringBody : Nat → List Char → Option (List Char × List Char)
  | 0, _ => none
  | _ + 1, [] => none
  | bound + 1, c :: rest =>
    if c = '"' then some ([], rest)
    else if c = '\\' then
      match rest with
      | [] => none
      | e :: rest =>
        if e = 'u' then do
          let (c, rest) ← unicodeEscape rest
          let (body, rest) ← stringBody bound rest
          some (c :: body, rest)
        else do
          let c ← shortEscape? e
          let (body, rest) ← stringBody bound rest
          some (c :: body, rest)
    else if c.toNat < 0x20 then none
    else do
      let (body, rest) ← stringBody bound rest
      some (c :: body, rest)

/-- A string, from its opening quote on. -/
def string : List Char → Option (String × List Char)
  | '"' :: rest => (stringBody (rest.length + 1) rest).map (fun p => (String.ofList p.1, p.2))
  | _ => none

/-! ## Numbers -/

def digits (s : List Char) : List Char × List Char := (s.takeWhile Char.isDigit, s.dropWhile Char.isDigit)

/-- The number that a row of decimal digits denotes. -/
def decimal (ds : List Char) : Nat := ds.foldl (fun n c => n * 10 + (c.toNat - 48)) 0

/-- The digits of an integer: zero stands alone. -/
def wholePart (s : List Char) : Option (List Char × List Char) :=
  match digits s with
  | ([], _) => none
  | ('0' :: _ :: _, _) => none
  | (ds, rest) => some (ds, rest)

/-- The digits after a point, if there is one. -/
def fractionPart : List Char → Option (Option (List Char) × List Char)
  | '.' :: rest =>
    match digits rest with
    | ([], _) => none
    | (ds, rest) => some (some ds, rest)
  | s => some (none, s)

/-- The power of ten after the letter e, if there is one. -/
def exponentPart : List Char → Option (Option Int × List Char)
  | c :: rest =>
    if c = 'e' || c = 'E' then
      let (sign, rest) : Int × List Char :=
        match rest with
        | '+' :: rest => (1, rest)
        | '-' :: rest => (-1, rest)
        | rest => (1, rest)
      match digits rest with
      | ([], _) => none
      | (ds, rest) => some (some (sign * (decimal ds : Int)), rest)
    else some (none, c :: rest)
  | [] => some (none, [])

/-- An integer of 64 bits stays an integer; zero with a sign and larger ones are doubles. -/
def wholeNumber? (negative : Bool) (n : Nat) : Option Json :=
  let signed : Int := if negative then -(n : Int) else n
  if isWordInt signed && !(negative && n == 0) then some (.int signed)
  else (Double.ofDecimal? negative n 0).map .double

/-- A number; one that is too large for a double is refused. -/
def number (s : List Char) : Option (Json × List Char) := do
  let (negative, s) :=
    match s with
    | '-' :: rest => (true, rest)
    | s => (false, s)
  let (whole, s) ← wholePart s
  let (fraction, s) ← fractionPart s
  let (exponent, s) ← exponentPart s
  match fraction, exponent with
  | none, none => (wholeNumber? negative (decimal whole)).map (fun v => (v, s))
  | _, _ =>
    let fraction := fraction.getD []
    let power := exponent.getD 0 - (fraction.length : Int)
    let d ← Double.ofDecimal? negative (decimal (whole ++ fraction)) power
    some (.double d, s)

/-! ## Values -/

/-- A word that must stand here. -/
def word (w : List Char) (v : Json) (s : List Char) : Option (Json × List Char) :=
  if w.isPrefixOf s then some (v, s.drop w.length) else none

mutual

/-- A value after blanks. The first number bounds the steps of the reader, the second the nesting. -/
def value : Nat → Nat → List Char → Option (Json × List Char)
  | 0, _, _ => none
  | steps + 1, depth, s =>
    match skipSpace s with
    | [] => none
    | '"' :: rest => (string ('"' :: rest)).map (fun p => (.str p.1, p.2))
    | '[' :: rest =>
      match depth with
      | 0 => none
      | depth + 1 =>
        match skipSpace rest with
        | ']' :: rest => some (.arr [], rest)
        | rest => (items steps depth rest).map (fun p => (.arr p.1, p.2))
    | '\x7b' :: rest =>
      match depth with
      | 0 => none
      | depth + 1 =>
        match skipSpace rest with
        | '\x7d' :: rest => some (.obj [], rest)
        | rest => (members steps depth rest).map (fun p => (ofFields p.1, p.2))
    | 't' :: rest => word ['r', 'u', 'e'] (.bool true) rest
    | 'f' :: rest => word ['a', 'l', 's', 'e'] (.bool false) rest
    | 'n' :: rest => word ['u', 'l', 'l'] .null rest
    | rest => number rest

/-- The items of an array up to its closing bracket. -/
def items : Nat → Nat → List Char → Option (List Json × List Char)
  | 0, _, _ => none
  | steps + 1, depth, s => do
    let (v, s) ← value steps depth s
    match skipSpace s with
    | ']' :: rest => some ([v], rest)
    | ',' :: rest =>
      let (vs, rest) ← items steps depth rest
      some (v :: vs, rest)
    | _ => none

/-- The fields of an object up to its closing brace. -/
def members : Nat → Nat → List Char → Option (List (String × Json) × List Char)
  | 0, _, _ => none
  | steps + 1, depth, s => do
    let (k, s) ← string (skipSpace s)
    match skipSpace s with
    | ':' :: s =>
      let (v, s) ← value steps depth s
      match skipSpace s with
      | '\x7d' :: rest => some ([(k, v)], rest)
      | ',' :: rest =>
        let (fs, rest) ← members steps depth rest
        some ((k, v) :: fs, rest)
      | _ => none
    | _ => none

end

end Playbook.Json.Parser

namespace Playbook.Json

/-- How deeply arrays and objects of a document may nest. -/
def nestingLimit : Nat := 127

/-- The value of a whole text, nested no deeper than the bound. -/
def parseNested? (depth : Nat) (s : String) : Option Json :=
  let cs := s.toList
  -- each character takes at most two steps, so the bound on them is never what ends the reading
  match Parser.value (2 * cs.length + 2) depth cs with
  | some (v, rest) => if (Parser.skipSpace rest).isEmpty then some v else none
  | none => none

/-- The value of a whole text. -/
def parse? (s : String) : Option Json := parseNested? nestingLimit s

end Playbook.Json
