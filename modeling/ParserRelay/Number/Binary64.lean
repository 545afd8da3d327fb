/-! Numbers of 64-bit binary floating point, held as exact dyadic fractions, and the rounding of
an exact quotient to the nearest of them. All steps are exact arithmetic on naturals. -/
namespace ParserRelay

/-- A binary64 number. A finite one is `significand * 2 ^ exponent` with its sign; the
significand is below `2 ^ 53`, and is at least `2 ^ 52` unless the exponent is the least one. -/
inductive Binary64
  | nan
  | infinite (negative : Bool)
  | finite (negative : Bool) (significand : Nat) (exponent : Int)
  deriving DecidableEq

namespace Binary64

def leastExponent : Int := -1074

def greatestExponent : Int := 971

def zero (negative : Bool) : Binary64 := .finite negative 0 leastExponent

def halfEven (num den : Nat) : Nat :=
  let low := num / den
  let rest := 2 * (num % den)
  if rest < den then low else if den < rest then low + 1 else low + low % 2

def binaryOrder (num den : Nat) : Int :=
  let e : Int := (Nat.log2 num : Int) - Nat.log2 den
  if den * Nat.pow 2 e.toNat ≤ num * Nat.pow 2 (-e).toNat then e else e - 1

def ofRatio (negative : Bool) (num den : Nat) : Binary64 :=
  if num = 0 then zero negative else
  let place := max (binaryOrder num den - 52) leastExponent
  let rounded := halfEven (num * Nat.pow 2 (-place).toNat) (den * Nat.pow 2 place.toNat)
  if rounded = Nat.pow 2 53 then
    if greatestExponent ≤ place then .infinite negative else .finite negative (Nat.pow 2 52) (place + 1)
  else if greatestExponent < place then .infinite negative
  else .finite negative rounded place

def ofInt (n : Int) : Binary64 := ofRatio (n < 0) n.natAbs 1

/-- The number nearest to `digits * 10 ^ exponent`. Where the magnitude is far outside the finite
range it is settled by the order alone. -/
def ofDecimal (negative : Bool) (digits : Nat) (exponent : Int) : Binary64 :=
  if digits = 0 then zero negative else
  let order : Int := exponent + (Nat.toDigits 10 digits).length
  if 310 < order then .infinite negative
  else if order < -330 then zero negative
  else ofRatio negative (digits * Nat.pow 10 exponent.toNat) (Nat.pow 10 (-exponent).toNat)

def units (place : Int) (negative : Bool) (significand : Nat) (exponent : Int) : Int :=
  let n : Int := (significand * Nat.pow 2 (exponent - place).toNat : Nat)
  if negative then -n else n

def sub : Binary64 → Binary64 → Binary64
  | .nan, _ => .nan
  | _, .nan => .nan
  | .infinite s, .infinite t => if s = t then .nan else .infinite s
  | .infinite s, .finite .. => .infinite s
  | .finite .., .infinite t => .infinite !t
  | .finite s m p, .finite t n q =>
    let place := min p q
    let d := units place s m p - units place t n q
    if d = 0 then zero (s && !t && m = 0)
    else ofRatio (d < 0) (d.natAbs * Nat.pow 2 place.toNat) (Nat.pow 2 (-place).toNat)

end Binary64
end ParserRelay
