/-! # The length of text in tokens

Windows are measured in tokens. The count is taken from the runs of characters of one kind: a word or a
run of marks is one token, digits go three to a token, and blanks cost one unless a single blank leads a
word or a run of marks, which then takes it in.
-/

namespace Playbook.Tokens

/-- The kinds of characters that tokens do not mix. -/
inductive CharKind where
  | letter
  | digit
  | blank
  | mark
  deriving DecidableEq, Repr

/-- The kind of a character; outside of ASCII everything counts as a letter. -/
def kindOf (c : Char) : CharKind :=
  if c.isDigit then .digit
  else if c.isAlpha || 128 ≤ c.toNat then .letter
  else if c = ' ' || (9 ≤ c.toNat && c.toNat ≤ 13) then .blank
  else .mark

/-- The runs of characters of one kind, with their lengths. -/
def runs : List Char → List (CharKind × Nat)
  | [] => []
  | c :: rest =>
    match runs rest with
    | [] => [(kindOf c, 1)]
    | (kind, n) :: more =>
      if kind = kindOf c then (kind, n + 1) :: more else (kindOf c, 1) :: (kind, n) :: more

/-- The tokens of a run, given the run behind it. -/
def runCost (next : Option CharKind) : CharKind × Nat → Nat
  | (.digit, n) => (n + 2) / 3
  | (.blank, 1) => if next = some .letter || next = some .mark then 0 else 1
  | _ => 1

def runsCost : List (CharKind × Nat) → Nat
  | [] => 0
  | run :: rest => runCost (rest.head?.map (·.1)) run + runsCost rest

/-- The number of tokens of a text. -/
def count (text : String) : Nat := runsCost (runs text.toList)

example : count "" = 0 := by decide +kernel

example : count "1234567" = 3 := by decide +kernel

example : count "You are 7." = 5 := by decide +kernel

end Playbook.Tokens
