import Playbook.Number.Double

/-! # The fewest digits that read back

`Double.shortest` finds the decimal numeral with the fewest digits that lies within the interval of
reals rounding to a given number, and among those the one nearest to it. `Layout` fixes how such a
numeral is written, and which of two equally near ones it is.
-/

namespace Playbook

namespace Double

/-! ## Digits -/

/-- A positive quantity `num / den` between 10^-400 and 10^400 lies between 10^e and 10^(e+1) for this
exponent e. -/
def decimalExponent (num den : Nat) : Int :=
  ((Nat.toDigits 10 (num * Nat.pow 10 400 / den)).length : Int) - 401

/-- Where a number and the ends of its rounding interval lie, in quarters of its last place. -/
structure Interval where
  value : Nat
  lower : Nat
  upper : Nat
  closed : Bool

/-- The reals that round to a number; the ends belong to it when the significand is even. Below a power
of two the neighbour is nearer. -/
def interval (d : Double) : Interval :=
  let m := d.significand
  let near := d.fractionField = 0 && 1 < d.exponentField
  { value := 4 * m, lower := 4 * m - (if near then 1 else 2), upper := 4 * m + 2,
    closed := m % 2 = 0 }

/-- Where a number goes that lies midway between two numerals. -/
inductive Tie where
  | toEven
  | up
  deriving DecidableEq, Repr

/-- The numeral with the last place at 10^k that reads back as the number, if one of its two neighbours
on that grid does; of two such the nearer. -/
def onGrid (d : Double) (tie : Tie) (k : Int) : Option Nat :=
  let q := d.exponent - 2
  let up := Nat.pow 2 q.toNat * Nat.pow 10 (-k).toNat
  let den := Nat.pow 2 (-q).toNat * Nat.pow 10 k.toNat
  let i := d.interval
  let inside (c : Nat) : Bool :=
    if i.closed then i.lower * up ≤ c * den && c * den ≤ i.upper * up
    else i.lower * up < c * den && c * den < i.upper * up
  let below := i.value * up / den
  let above := below + 1
  match inside below, inside above with
  | true, true =>
    match compare (2 * (i.value * up)) ((below + above) * den) with
    | .lt => some below
    | .gt => some above
    | .eq => if tie = .toEven && below % 2 = 0 then some below else some above
  | true, false => some below
  | false, true => some above
  | false, false => none

/-- The digits and the power of ten of the shortest numeral for a positive finite number. -/
def shortest (d : Double) (tie : Tie) : Nat × Int :=
  let q := d.exponent
  let e := decimalExponent (d.significand * Nat.pow 2 q.toNat) (Nat.pow 2 (-q).toNat)
  -- seventeen digits always suffice
  let tries := (List.range 17).map (fun (p : Nat) => e - (p : Int))
  match tries.findSome? (fun k => (d.onGrid tie k).map (fun c => (c, k))) with
  | some found => found
  | none => (d.significand, 0)

end Double

/-! ## Layout -/

/-- How a numeral is written: the decimal exponents that are written in positional notation (all of
them if there are no bounds), whether an integer keeps a zero after the point, and where ties go. -/
structure Layout where
  positional : Option (Int × Int)
  keepsPoint : Bool
  tie : Double.Tie
  deriving Repr

namespace Layout

/-- Values inside documents: scientific notation outside of 10^-5 to 10^15. -/
def document : Layout := ⟨some (-5, 15), true, .toEven⟩

/-- Numbers inside messages: never an exponent, and an integer has no point. -/
def message : Layout := ⟨none, false, .up⟩

/-- Numbers inside configuration files: never an exponent, and an integer keeps its point. -/
def setting : Layout := ⟨none, true, .up⟩

def zeros (n : Nat) : String := String.ofList (List.replicate n '0')

/-- Writes `digits * 10 ^ k` in positional notation. -/
def positionalText (l : Layout) (digits : List Char) (k : Int) : String :=
  let text := String.ofList digits
  if 0 ≤ k then text ++ zeros k.toNat ++ (if l.keepsPoint then ".0" else "")
  else
    let places := (-k).toNat
    if places < digits.length then
      String.ofList (digits.take (digits.length - places)) ++ "." ++
        String.ofList (digits.drop (digits.length - places))
    else "0." ++ zeros (places - digits.length) ++ text

/-- Writes `digits * 10 ^ k` with one digit before the point and a power of ten. -/
def scientificText (digits : List Char) (exponent : Int) : String :=
  let point :=
    match digits with
    | [] => "0"
    | [d] => String.singleton d
    | d :: rest => String.singleton d ++ "." ++ String.ofList rest
  point ++ "e" ++ (if 0 < exponent then "+" else "") ++ toString exponent

/-- Writes a finite number. -/
def finiteText (l : Layout) (d : Double) : String :=
  let sign := if d.isNegative then "-" else ""
  if d.isZero then sign ++ (if l.keepsPoint then "0.0" else "0")
  else
    let (c, k) := d.shortest l.tie
    let all := Nat.toDigits 10 c
    let digits := (all.reverse.dropWhile (· == '0')).reverse
    let k := k + ((all.length - digits.length : Nat) : Int)
    let exponent := k + (digits.length : Int) - 1
    match l.positional with
    | some (least, greatest) =>
      if least ≤ exponent && exponent ≤ greatest then sign ++ l.positionalText digits k
      else sign ++ scientificText digits exponent
    | none => sign ++ l.positionalText digits k

/-- Writes any number. -/
def text (l : Layout) (d : Double) : String :=
  if d.isFinite then l.finiteText d
  else if d.isNaN then "NaN"
  else if d.isNegative then "-inf"
  else "inf"

end Layout

end Playbook
