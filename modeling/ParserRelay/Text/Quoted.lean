import ParserRelay.Text.CodePoint
import ParserRelay.Text.Digit
import ParserRelay.Text.Printable
/-! Quoted texts for diagnostics: apostrophes around, or quotation marks where only apostrophes
occur inside, and escapes for all that has no visible form. -/
namespace ParserRelay.Text

/-- The mark that encloses a text: a quotation mark if the text has an apostrophe and no such mark. -/
def enclosingMark (w : WideText) : Char :=
  if w.contains (.char '\'') && !w.contains (.char '"') then '"' else '\''

def numericEscape (n : Nat) : Text :=
  if n < 0x100 then '\\' :: 'x' :: hexOfNat 2 n
  else if n < 0x10000 then '\\' :: 'u' :: hexOfNat 4 n
  else '\\' :: 'U' :: hexOfNat 8 n

def quotedPoint (mark : Char) : CodePoint → Text
  | .lone s => numericEscape (0xD800 + s.val)
  | .char c =>
    if c = mark ∨ c = '\\' then ['\\', c]
    else if c = '\n' then ['\\', 'n']
    else if c = '\r' then ['\\', 'r']
    else if c = '\t' then ['\\', 't']
    else if isPrintable c then [c] else numericEscape c.toNat

def quoted (w : WideText) : Text :=
  let mark := enclosingMark w
  mark :: w.flatMap (quotedPoint mark) ++ [mark]

end ParserRelay.Text
