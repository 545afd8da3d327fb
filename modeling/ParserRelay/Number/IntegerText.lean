import ParserRelay.Text.Blank
import ParserRelay.Text.Digit
/-! Integers as people write them: white space around, a sign, decimal digits of any script, and
single underscores between digits. -/
namespace ParserRelay.IntegerText
open ParserRelay.Text

/-- Longer numbers are refused, whatever they denote. -/
def maxDigits : Nat := 4300

/-- The values of the digits; an underscore is allowed only right after one and before another. -/
def digits? (afterDigit : Bool) : Text → Option (List Nat)
  | [] => if afterDigit then some [] else none
  | c :: t => match digitValue? c with
    | some d => (digits? true t).map (d :: ·)
    | none => if c = '_' && afterDigit then digits? false t else none

def value (digits : List Nat) : Nat := digits.foldl (fun n d => 10 * n + d) 0

def natural? (t : Text) : Option Nat :=
  (digits? false t).bind fun ds => if ds.length ≤ maxDigits then some (value ds) else none

def integer? : Text → Option Int
  | '+' :: t => (natural? t).map Int.ofNat
  | '-' :: t => (natural? t).map fun n => -(n : Int)
  | t => (natural? t).map Int.ofNat

def parse? (t : Text) : Option Int := integer? (trim t)

end ParserRelay.IntegerText
