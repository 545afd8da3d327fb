import ParserRelay.Number.Binary64
/-! The shortest decimal that reads back as a given finite binary64 number, and of those the nearest.
Each number of digits from one to seventeen is a decimal grid, and only the two neighbours of the
number on the grid need to be tried: if any point of it reads back, one of them does. -/
namespace ParserRelay.Binary64

structure Decimal where
  digits : Nat
  exponent : Int
  deriving DecidableEq

def belowPower (num den : Nat) (k : Int) : Bool := num * Nat.pow 10 (-k).toNat < den * Nat.pow 10 k.toNat

def decimalOrder (num den : Nat) : Int :=
  let guess := (binaryOrder num den * 30103).fdiv 100000
  if belowPower num den guess then guess
  else if belowPower num den (guess + 1) then guess + 1 else guess + 2

/-- The reals that round to a finite positive number: their ends and the number itself, as numerators
over `den`. The ends belong to them when the significand is even. -/
structure Basin where
  low : Nat
  mid : Nat
  high : Nat
  closed : Bool
  den : Nat

/-- The lower half gap is halved at a power of two, where the numbers below are denser. -/
def basin (significand : Nat) (exponent : Int) : Basin :=
  let scale := Nat.pow 2 exponent.toNat
  let dense := significand = Nat.pow 2 52 && leastExponent < exponent
  ⟨(4 * significand - if dense then 1 else 2) * scale, 4 * significand * scale,
    (4 * significand + 2) * scale, significand % 2 = 0, 4 * Nat.pow 2 (-exponent).toNat⟩

namespace Basin

def numerator (b : Basin) (d : Decimal) : Nat := d.digits * Nat.pow 10 d.exponent.toNat * b.den
def lift (d : Decimal) (n : Nat) : Nat := n * Nat.pow 10 (-d.exponent).toNat

def holds (b : Basin) (d : Decimal) : Bool :=
  let n := b.numerator d
  if b.closed then lift d b.low ≤ n && n ≤ lift d b.high else lift d b.low < n && n < lift d b.high

def nearer (b : Basin) (below above : Decimal) : Decimal :=
  let down := lift below b.mid - b.numerator below
  let up := b.numerator above - lift above b.mid
  if down < up || (down = up && below.digits % 2 = 0) then below else above

def onGrid? (b : Basin) (exponent : Int) : Option Decimal :=
  let unit := Nat.pow 10 exponent.toNat * b.den
  let floor := b.mid * Nat.pow 10 (-exponent).toNat / unit
  let below : Decimal := ⟨floor, exponent⟩
  let above : Decimal := ⟨floor + 1, exponent⟩
  match b.holds below, b.holds above with
  | true, true => some (b.nearer below above)
  | true, false => some below
  | false, true => some above
  | false, false => none

end Basin

def stripZeros : Nat → Decimal → Decimal
  | 0, d => d
  | n + 1, d =>
    if d.digits ≠ 0 && d.digits % 10 = 0 then stripZeros n ⟨d.digits / 10, d.exponent + 1⟩ else d

/-- The shortest decimal of a positive number; seventeen digits always suffice. -/
def shortest (significand : Nat) (exponent : Int) : Decimal :=
  let b := basin significand exponent
  let k := decimalOrder b.mid b.den
  match (List.range' 1 17).findSome? fun (n : Nat) => b.onGrid? (k - n) with
  | some d => stripZeros 20 d
  | none => ⟨0, 0⟩

end ParserRelay.Binary64
