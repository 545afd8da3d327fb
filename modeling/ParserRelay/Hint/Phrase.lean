import ParserRelay.Text.CodePoint
import ParserRelay.Text.Digit
import ParserRelay.Text.WordChar
/-! Phrases compared without regard to case. -/
namespace ParserRelay.Hint

/-- The code under which a code point is compared: lower case for ASCII letters, and the plain
letter for the four others that count as variants of `i`, `k` and `s`. -/
def fold (c : CodePoint) : Nat :=
  let n := c.toNat
  if n = 0x130 ∨ n = 0x131 then 'i'.toNat else if n = 0x212A then 'k'.toNat
  else if n = 0x17F then 's'.toNat else if 'A'.toNat ≤ n ∧ n ≤ 'Z'.toNat then n + 0x20 else n

def phrase? : WideText → WideText → Option WideText
  | [], t => some t
  | _ :: _, [] => none
  | p :: ps, c :: t => if fold p = fold c then phrase? ps t else none

def startsWith (phrase : WideText) (t : WideText) : Bool := (phrase? phrase t).isSome

def somewhere (test : WideText → Bool) : WideText → Bool
  | [] => test []
  | c :: t => test (c :: t) || somewhere test t

/-- The phrase stands later in the same line and not right after a word character; the character
before the text is given. -/
def laterInLine (phrase : WideText) (before : CodePoint) : WideText → Bool
  | [] => !Text.isWordChar before && startsWith phrase []
  | c :: t => (!Text.isWordChar before && startsWith phrase (c :: t))
    || (c ≠ .char '\n' && laterInLine phrase c t)

def endsWord : WideText → Bool
  | [] => true
  | c :: _ => !Text.isWordChar c

end ParserRelay.Hint
