import ParserRelay.Number.Shortest
import ParserRelay.Text.Digit
/-! Decimal texts of binary64 numbers. A layout says where positional notation ends and how an
exponent is written; the digits are always the shortest ones. -/
namespace ParserRelay.Binary64
open ParserRelay.Text

/-- The decisions of a number format. A number is written positionally when the power of ten of
its first digit is at least `lowest` and below `highest`. -/
structure Layout where
  lowest : Int
  highest : Int
  plusSign : Bool
  exponentWidth : Nat

/-- How numbers are displayed to people: `100.0`, `0.0001`, `1e-05`, `1e+16`. -/
def display : Layout := ⟨-4, 16, true, 2⟩

/-- How numbers are written into JSON: `100.0`, `0.00001`, `1e-6`, `1e16`. -/
def compact : Layout := ⟨-5, 16, false, 1⟩

def padZeros (width : Nat) (t : Text) : Text := List.replicate (width - t.length) '0' ++ t

namespace Layout

def exponentText (l : Layout) (e : Int) : Text :=
  (if e < 0 then ['-'] else if l.plusSign then ['+'] else []) ++ padZeros l.exponentWidth (ofNat e.natAbs)

def positional (digits : Text) (order : Int) : Text :=
  if order < 0 then ['0', '.'] ++ List.replicate (-order - 1).toNat '0' ++ digits
  else
    let whole := order.toNat + 1
    if digits.length ≤ whole then digits ++ List.replicate (whole - digits.length) '0' ++ ['.', '0']
    else digits.take whole ++ '.' :: digits.drop whole

def scientific (l : Layout) (digits : Text) (order : Int) : Text :=
  (match digits with
    | [] => []
    | [c] => [c]
    | c :: r => c :: '.' :: r) ++ 'e' :: l.exponentText order

def decimalText (l : Layout) (d : Decimal) : Text :=
  let digits := ofNat d.digits
  let order := d.exponent + digits.length - 1
  if l.lowest ≤ order ∧ order < l.highest then positional digits order else l.scientific digits order

def finiteText (l : Layout) (negative : Bool) (significand : Nat) (exponent : Int) : Text :=
  (if negative then ['-'] else []) ++
    if significand = 0 then ['0', '.', '0'] else l.decimalText (shortest significand exponent)

end Layout

def displayText : Binary64 → Text
  | .nan => "nan".toList
  | .infinite negative => if negative then "-inf".toList else "inf".toList
  | .finite negative m e => display.finiteText negative m e

def fixedText (places : Nat) : Binary64 → Text
  | .finite negative m e =>
    let n := halfEven (m * Nat.pow 2 e.toNat * Nat.pow 10 places) (Nat.pow 2 (-e).toNat)
    let digits := padZeros (places + 1) (ofNat n)
    let whole := digits.length - places
    (if negative then ['-'] else []) ++ digits.take whole ++ '.' :: digits.drop whole
  | x => displayText x

end ParserRelay.Binary64
