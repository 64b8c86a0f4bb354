import Playbook.Text.Basic

/-! # Stems of English words

Suffix stripping in five steps, after which words of one family share one stem: plurals, past forms and
gerunds first, then derivations by groups of suffixes, and last a silent `e` and a double `l`. A suffix
goes only if enough of the word stays, which is measured by the alternation of vowels and consonants.
-/

namespace Playbook.Text

namespace Stem

/-! ## Vowels and consonants -/

def isVowel (c : Char) : Bool := c == 'a' || c == 'e' || c == 'i' || c == 'o' || c == 'u'

/-- For each letter whether it is a consonant; a `y` is one unless it follows a consonant. -/
def consonants (afterConsonant : Bool) : List Char → List Bool
  | [] => []
  | c :: rest =>
    let here := !(isVowel c || (afterConsonant && c == 'y'))
    here :: consonants here rest

/-- How often a vowel is followed by a consonant. -/
def changes : List Bool → Nat
  | a :: b :: rest => (if !a && b then 1 else 0) + changes (b :: rest)
  | _ => 0

/-- The measure of a stem. -/
def measure (stem : List Char) : Nat := changes (consonants false stem)

/-- Whether a stem holds a vowel; a `y` counts except as the first letter. -/
def hasVowel : List Char → Bool
  | [] => false
  | c :: rest => isVowel c || rest.any (fun d => isVowel d || d == 'y')

/-- Whether a stem ends in a consonant, a vowel, and a consonant other than `w`, `x` and `y`. -/
def endsShort (stem : List Char) : Bool :=
  match stem.reverse with
  | [] => false
  | c :: _ =>
    !(c == 'w' || c == 'x' || c == 'y') &&
      ((consonants false stem).reverse.take 3 == [true, false, true])

/-! ## Suffixes -/

/-- What stands before a suffix, if the word is longer than it. -/
def before? (suffix : String) (word : List Char) : Option (List Char) :=
  let s := suffix.toList
  if s.length < word.length && s.isSuffixOf word then some (word.take (word.length - s.length))
  else none

/-- The first rule whose suffix the word has: the suffix is replaced if the stem passes the test, and the
word stays as it is if not. -/
def replace (test : List Char → Bool) : List (String × String) → List Char → List Char
  | [], word => word
  | (suffix, replacement) :: rules, word =>
    match before? suffix word with
    | some stem => if test stem then stem ++ replacement.toList else word
    | none => replace test rules word

/-! ## Steps -/

/-- Plural endings. -/
def plural (word : List Char) : List Char :=
  match before? "sses" word, before? "ies" word, before? "s" word with
  | some stem, _, _ => stem ++ ['s', 's']
  | _, some stem, _ => stem ++ ['i']
  | _, _, some stem => if stem.getLast? = some 's' then word else stem
  | _, _, _ => word

/-- What a word gets back after the ending of a past form or a gerund has gone. -/
def restore (stem : List Char) : List Char :=
  let fixed := replace (fun _ => true) [("at", "ate"), ("bl", "ble"), ("iz", "ize")] stem
  if fixed != stem then fixed
  else
    match stem.reverse with
    | c :: d :: _ =>
      if !isVowel c && c != 'l' && c != 's' && c != 'z' && c == d then stem.dropLast
      else if measure stem = 1 && endsShort stem then stem ++ ['e']
      else stem
    | _ => stem

/-- Past forms and gerunds. -/
def inflected (word : List Char) : List Char :=
  match before? "eed" word with
  | some stem => if 0 < measure stem then stem ++ ['e', 'e'] else word
  | none =>
    match before? "ed" word <|> before? "ing" word with
    | some stem => if hasVowel stem then restore stem else word
    | none => word

/-- A final `y` behind a vowel. -/
def finalY (word : List Char) : List Char :=
  match before? "y" word with
  | some stem => if hasVowel stem then stem ++ ['i'] else word
  | none => word

/-- Derivations from derivations. -/
def doubleSuffixes : List (String × String) :=
  [("ational", "ate"), ("tional", "tion"), ("enci", "ence"), ("anci", "ance"), ("izer", "ize"),
    ("logi", "log"), ("bli", "ble"), ("alli", "al"), ("entli", "ent"), ("eli", "e"), ("ousli", "ous"),
    ("ization", "ize"), ("ation", "ate"), ("ator", "ate"), ("alism", "al"), ("iveness", "ive"),
    ("fulness", "ful"), ("ousness", "ous"), ("aliti", "al"), ("iviti", "ive"), ("biliti", "ble")]

def middleSuffixes : List (String × String) :=
  [("ical", "ic"), ("ness", ""), ("icate", "ic"), ("iciti", "ic"), ("ful", ""), ("ative", ""),
    ("alize", "al")]

def lastSuffixes : List String :=
  ["al", "ance", "ence", "er", "ic", "able", "ible", "ant", "ement", "ment", "ent", "ion", "ou", "ism",
    "ate", "iti", "ous", "ive", "ize"]

/-- Plain derivations; `ion` goes only behind `s` or `t`. -/
def derived : List String → List Char → List Char
  | [], word => word
  | suffix :: rest, word =>
    match before? suffix word with
    | some stem =>
      let fits := suffix != "ion" || stem.getLast? == some 's' || stem.getLast? == some 't'
      if fits && 1 < measure stem then stem else word
    | none => derived rest word

/-- A silent `e` at the end, and a double `l`. -/
def tidy (word : List Char) : List Char :=
  let word :=
    match before? "e" word with
    | some stem =>
      if 1 < measure stem || (measure stem = 1 && !endsShort stem) then stem else word
    | none => word
  match before? "l" word with
  | some stem => if stem.getLast? = some 'l' && 1 < measure stem then stem else word
  | none => word

end Stem

/-- The stem of a word in lower case; words of fewer than three or more than 64 bytes stay. -/
def stem (word : List Char) : List Char :=
  let bytes := size word
  if bytes < 3 || 64 < bytes then word
  else
    let positive (s : List Char) : Bool := 0 < Stem.measure s
    let word := Stem.finalY (Stem.inflected (Stem.plural word))
    let word := Stem.replace positive Stem.doubleSuffixes word
    let word := Stem.replace positive Stem.middleSuffixes word
    Stem.tidy (Stem.derived Stem.lastSuffixes word)

end Playbook.Text
