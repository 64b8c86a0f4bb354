/-! # Doubles

A binary floating-point number of 64 bits, kept as its bits, so that equality is equality of bits and
the order of values can be read off without arithmetic: for numbers of one sign the bits increase with
the magnitude.
-/

namespace Playbook

/-- A number in the 64-bit binary interchange format. -/
structure Double where
  bits : UInt64
  deriving DecidableEq, Repr, Inhabited

namespace Double

/-- The bits without the sign. -/
def magnitude (d : Double) : Nat := d.bits.toNat % 0x8000000000000000

def isNegative (d : Double) : Bool := 0x8000000000000000 ≤ d.bits.toNat

def exponentField (d : Double) : Nat := d.magnitude / 0x10000000000000

def fractionField (d : Double) : Nat := d.magnitude % 0x10000000000000

/-- Neither an infinity nor a NaN. -/
def isFinite (d : Double) : Bool := d.exponentField < 2047

def isNaN (d : Double) : Bool := d.exponentField == 2047 && d.fractionField != 0

/-- The magnitude of a finite number is `significand * 2 ^ exponent`. -/
def significand (d : Double) : Nat :=
  if d.exponentField = 0 then d.fractionField else 0x10000000000000 + d.fractionField

/-- The power of two that goes with `significand`. -/
def exponent (d : Double) : Int :=
  if d.exponentField = 0 then -1074 else (d.exponentField : Int) - 1075

/-! ## Order -/

/-- An integer that orders all numbers but the NaNs; both zeros have rank 0. -/
def rank (d : Double) : Int := if d.isNegative then -(d.magnitude : Int) else d.magnitude

/-- Numerical order; a NaN is not below and not above any number. -/
def lt (a b : Double) : Bool := !a.isNaN && !b.isNaN && a.rank < b.rank

def le (a b : Double) : Bool := !a.isNaN && !b.isNaN && a.rank ≤ b.rank

def zero : Double := ⟨0⟩

def one : Double := ⟨0x3FF0000000000000⟩

/-- Greater than 0 and at most 1. -/
def isFraction (d : Double) : Bool := lt zero d && le d one

/-- Equal to zero, of either sign. -/
def isZero (d : Double) : Bool := d.magnitude == 0

/-- A finite number without a fractional part is this integer. -/
def toInt? (d : Double) : Option Int :=
  if !d.isFinite then none
  else
    let sign : Int := if d.isNegative then -1 else 1
    if 0 ≤ d.exponent then some (sign * (d.significand * Nat.pow 2 d.exponent.toNat : Nat))
    else
      let unit := Nat.pow 2 (-d.exponent).toNat
      if d.significand % unit = 0 then some (sign * (d.significand / unit : Nat)) else none

/-- Compares a finite number with an integer, exactly. -/
def compareInt (d : Double) (n : Int) : Ordering :=
  let sign : Int := if d.isNegative then -1 else 1
  let num : Int := sign * (d.significand * Nat.pow 2 d.exponent.toNat : Nat)
  let den : Int := ((Nat.pow 2 (-d.exponent).toNat : Nat) : Int)
  compare num (n * den)

/-! ## Arithmetic -/

def toFloat (d : Double) : Float := Float.ofBits d.bits

def ofFloat (f : Float) : Double := ⟨f.toBits⟩

/-- The number nearest to an integer. -/
def ofInt (n : Int) : Double := ofFloat (Float.ofInt n)

/-- The number nearest to `digits * 10 ^ exponent`; none if it is too large to be finite. The count of
digits bounds the magnitude, so that no huge power of ten is formed. -/
def ofDecimal? (negative : Bool) (digits : Nat) (exponent : Int) : Option Double :=
  let signed (f : Float) : Double := ofFloat (if negative then -f else f)
  if digits = 0 then some (signed 0)
  else
    let places : Int := exponent + ((Nat.toDigits 10 digits).length : Int)
    if 310 < places then none
    else if places < -330 then some (signed 0)
    else
      let f := Float.ofScientific digits (exponent < 0) exponent.natAbs
      if f.isFinite then some (signed f) else none

/-- A count of tokens scaled by a ratio, rounded to the nearest count with halves going up. A ratio
that is no number gives nothing, and a product beyond 64 bits gives the largest count. -/
def scaleCount (count : UInt64) (ratio : Double) : UInt64 :=
  (count.toFloat * ratio.toFloat).round.toUInt64

end Double

end Playbook
