import Playbook.Text.Words

/-! # Search queries

The language of full-text queries. Words that follow each other must all occur; `AND`, `OR` and `NOT`
combine queries, quotes make phrases of words that follow each other, a star accepts longer words, a
caret asks for the beginning of the text, `NEAR` for phrases that stand together, and a column in front
of a colon restricts where to look. Only the column of contents holds words.
-/

namespace Playbook

/-- A word of a phrase, or the beginning of one. -/
structure QueryWord where
  word : List Char
  isOpen : Bool
  deriving DecidableEq, Repr

/-- Words that follow each other. -/
structure Phrase where
  words : List QueryWord
  /-- Only at the beginning of a text. -/
  leading : Bool
  deriving DecidableEq, Repr

/-- A query. -/
inductive Query where
  | nothing
  | near (phrases : List Phrase) (distance : Nat)
  | both (a b : Query)
  | either (a b : Query)
  | without (a b : Query)
  deriving DecidableEq, Repr

namespace Query

/-! ## Tokens -/

inductive Token where
  | mark (c : Char)
  | word (text : List Char)
  | andWord
  | orWord
  | notWord
  deriving DecidableEq, Repr

/-- The characters of words that need no quotes. -/
def isBare (c : Char) : Bool := c.isAlphanum || c = '_' || c = '\x1a' || 128 ≤ c.toNat

/-- A quoted text up to its closing quote; a quote inside is written twice. -/
def quoted : List Char → Option (List Char × List Char)
  | [] => none
  | '"' :: '"' :: rest => (quoted rest).map (fun p => ('"' :: p.1, p.2))
  | c :: rest => if c = '"' then some ([], rest) else (quoted rest).map (fun p => (c :: p.1, p.2))

theorem quoted_length {s text rest : List Char} (h : quoted s = some (text, rest)) :
    rest.length < s.length := by
  fun_induction quoted s generalizing text rest with
  | case1 => simp at h
  | case2 r ih =>
    obtain ⟨p, hp, heq⟩ := Option.map_eq_some_iff.1 h
    cases heq
    have := ih hp
    simp only [List.length_cons]
    omega
  | case3 => simp_all
  | case4 c r _ _ ih =>
    obtain ⟨p, hp, heq⟩ := Option.map_eq_some_iff.1 h
    cases heq
    have := ih hp
    simp only [List.length_cons]
    omega

def bareToken (text : List Char) : Token :=
  match String.ofList text with
  | "AND" => .andWord
  | "OR" => .orWord
  | "NOT" => .notWord
  | _ => .word text

/-- The tokens of a query. -/
def tokens (s : List Char) : Option (List Token) :=
  match s with
  | [] => some []
  | c :: rest =>
    if [' ', '\t', '\n', '\r'].contains c then tokens rest
    else if ['(', ')', '\x7b', '\x7d', ':', ',', '+', '*', '-', '^'].contains c then
      (tokens rest).map (.mark c :: ·)
    else if c = '"' then
      match h : quoted rest with
      | some (text, rest') =>
        have := quoted_length h
        (tokens rest').map (.word text :: ·)
      | none => none
    else if isBare c then
      have := (List.dropWhile_sublist isBare (l := rest)).length_le
      (tokens (rest.dropWhile isBare)).map (bareToken (c :: rest.takeWhile isBare) :: ·)
    else none
  termination_by s.length
  decreasing_by all_goals simp only [List.length_cons]; omega

/-! ## Grammar -/

/-- Adds the words of a text to a phrase. A star opens the last word. -/
def extend (words : List QueryWord) (text : List Char) (star : Bool) : List QueryWord :=
  let all := words ++ (Text.words text).map (fun w => ⟨w, false⟩)
  match all.getLast? with
  | some last => all.dropLast ++ [{ last with isOpen := star }]
  | none => []

/-- Further texts of a phrase behind plus signs. -/
def morePhrase (words : List QueryWord) : List Token → Option (List QueryWord × List Token)
  | .mark '+' :: .word text :: .mark '*' :: rest => morePhrase (extend words text true) rest
  | .mark '+' :: .word text :: rest => morePhrase (extend words text false) rest
  | .mark '+' :: _ => none
  | rest => some (words, rest)

/-- A phrase. -/
def phrase : List Token → Option (List QueryWord × List Token)
  | .word text :: .mark '*' :: rest => morePhrase (extend [] text true) rest
  | .word text :: rest => morePhrase (extend [] text false) rest
  | _ => none

/-- The phrases of a group up to its end, and the distance. Empty phrases are dropped. -/
def group : Nat → List Phrase → List Token → Option (List Phrase × Nat × List Token)
  | 0, _, _ => none
  | _ + 1, acc, .mark ')' :: rest => if acc.isEmpty then none else some (acc, 10, rest)
  | _ + 1, acc, .mark ',' :: .word n :: .mark ')' :: rest =>
    if acc.isEmpty || !n.all Char.isDigit then none
    else some (acc, n.foldl (fun n c => n * 10 + (c.toNat - 48)) 0, rest)
  | fuel + 1, acc, ts => do
    let (words, rest) ← phrase ts
    group fuel (acc ++ [⟨words, false⟩]) rest

/-- The query that some phrases make; phrases without words do not count. -/
def ofPhrases (phrases : List Phrase) (distance : Nat) : Option Query :=
  let phrases := phrases.filter (fun p => !p.words.isEmpty)
  if phrases.isEmpty then none else some (.near phrases distance)

/-- One phrase or a group of them, without columns. -/
def simple (ts : List Token) : Option (Option Query × List Token) :=
  match ts with
  | .mark '^' :: rest => do
    let (words, rest) ← phrase rest
    some (ofPhrases [⟨words, true⟩] 0, rest)
  | .word name :: .mark '(' :: rest =>
    if String.ofList name = "NEAR" then do
      let (phrases, distance, rest) ← group (rest.length + 1) [] rest
      some (ofPhrases phrases distance, rest)
    else none
  | _ => do
    let (words, rest) ← phrase ts
    some (ofPhrases [⟨words, false⟩] 0, rest)

/-- The names of columns, in the two spellings of a set. -/
def columnNames : List Token → Option (List (List Char) × List Token)
  | .mark '\x7b' :: rest =>
    let names := rest.takeWhile (fun t => match t with
      | .word _ => true
      | _ => false)
    match rest.drop names.length with
    | .mark '\x7d' :: rest =>
      if names.isEmpty then none
      else some (names.filterMap (fun t => match t with
        | .word w => some w
        | _ => none), rest)
    | _ => none
  | .word name :: rest => some ([name], rest)
  | _ => none

/-- A set of columns in front of a colon: whether the contents belong to it. The result is `some none` if
no columns are named here. -/
def columns (ts : List Token) : Option (Option (Bool × List Token)) :=
  let (inverted, ts) := match ts with
    | .mark '-' :: rest => (true, rest)
    | ts => (false, ts)
  match columnNames ts with
  | some (names, .mark ':' :: rest) =>
    let names := names.map (fun n => String.ofList (n.map Char.toLower))
    if names.all (fun n => n == "content" || n == "agent_id") then
      some (some (names.contains "content" != inverted, rest))
    else none
  | _ =>
    match ts with
    | .mark '\x7b' :: _ => none
    | _ => if inverted then none else some none

/-- Restricts a query to a set of columns; without the contents it matches nothing. -/
def restrict (withContent : Bool) : Query → Query
  | .nothing => .nothing
  | .near phrases distance => if withContent then .near phrases distance else .nothing
  | .both a b => .both (restrict withContent a) (restrict withContent b)
  | .either a b => .either (restrict withContent a) (restrict withContent b)
  | .without a b => .without (restrict withContent a) (restrict withContent b)

/-- Joins phrases that follow each other; those without words do not count. -/
def joined : Option Query → Option Query → Option Query
  | some a, some b => some (.both a b)
  | some a, none => some a
  | none, b => b

/-- Phrases that follow each other, behind those read so far. -/
def more : Nat → Option Query → List Token → Option (Option Query × List Token)
  | 0, _, _ => none
  | fuel + 1, acc, ts =>
    match ts with
    | .word _ :: _ | .mark '^' :: _ | .mark '\x7b' :: _ | .mark '-' :: _ => do
      match ← columns ts with
      | some (content, rest) =>
        let (q, rest) ← simple rest
        more fuel (joined acc (q.map (restrict content))) rest
      | none =>
        let (q, rest) ← simple ts
        more fuel (joined acc q) rest
    | _ => some (acc, ts)

/-- Phrases that follow each other. Without a word in them they match nothing. -/
def phrases (fuel : Nat) (ts : List Token) : Option (Query × List Token) := do
  match ts with
  | [] => none
  | _ =>
    let (q, rest) ← more fuel none ts
    if rest.length < ts.length then some (q.getD .nothing, rest) else none

/-- What an operator stands for. -/
inductive Level where
  | anyOf
  | allOf
  | butNot
  | operand

mutual

/-- Reads a query of a level: operators of one level stand side by side, and each level binds tighter
than the one before. -/
def expression : Nat → Level → List Token → Option (Query × List Token)
  | 0, _, _ => none
  | fuel + 1, .anyOf, ts => do
    let (q, rest) ← expression fuel .allOf ts
    operators fuel .anyOf q rest
  | fuel + 1, .allOf, ts => do
    let (q, rest) ← expression fuel .butNot ts
    operators fuel .allOf q rest
  | fuel + 1, .butNot, ts => do
    let (q, rest) ← expression fuel .operand ts
    operators fuel .butNot q rest
  | fuel + 1, .operand, ts => do
    match ts with
    | .mark '(' :: rest => inParentheses fuel rest
    | _ =>
      match ← columns ts with
      | some (content, .mark '(' :: rest) =>
        let (q, rest) ← inParentheses fuel rest
        some (restrict content q, rest)
      | _ => phrases fuel ts

/-- Further operands of a level. -/
def operators : Nat → Level → Query → List Token → Option (Query × List Token)
  | fuel + 1, .anyOf, q, .orWord :: rest => do
    let (r, rest) ← expression fuel .allOf rest
    operators fuel .anyOf (.either q r) rest
  | fuel + 1, .allOf, q, .andWord :: rest => do
    let (r, rest) ← expression fuel .butNot rest
    operators fuel .allOf (.both q r) rest
  | fuel + 1, .butNot, q, .notWord :: rest => do
    let (r, rest) ← expression fuel .operand rest
    operators fuel .butNot (.without q r) rest
  | 0, _, _, _ => none
  | _, _, q, rest => some (q, rest)

def inParentheses : Nat → List Token → Option (Query × List Token)
  | 0, _ => none
  | fuel + 1, ts => do
    match ← expression fuel .anyOf ts with
    | (q, .mark ')' :: rest) => some (q, rest)
    | _ => none

end

/-- Reads a query; what stands behind a null character is ignored. -/
def parse? (text : String) : Option Query := do
  let ts ← tokens (text.toList.takeWhile (· != '\x00'))
  match ← expression (6 * ts.length + 6) .anyOf ts with
  | (q, []) => some q
  | _ => none

end Query

end Playbook
