import ParserRelay.Json.Basic
import ParserRelay.Number.Layout
import ParserRelay.Text.Encoding
/-! Writing JSON on a single line without spaces. A string with half a surrogate pair has no written
form, and nesting is limited; numbers without digits are written as null. -/
namespace ParserRelay.Json

inductive Unwritable
  | half (run : LoneRun)
  | tooDeep
  deriving DecidableEq

def Unwritable.message : Unwritable → Text
  | .half run => "UnicodeEncodeError: ".toList ++ run.message
  | .tooDeep => "ValueError: Circular reference detected (depth exceeded)".toList

def stringChar (c : Char) : Text :=
  if c = '"' then ['\\', '"']
  else if c = '\\' then ['\\', '\\']
  else if c = '\n' then ['\\', 'n']
  else if c = '\r' then ['\\', 'r']
  else if c = '\t' then ['\\', 't']
  else if c = '\x08' then ['\\', 'b']
  else if c = '\x0c' then ['\\', 'f']
  else if c.toNat < 0x20 then '\\' :: 'u' :: Text.hexOfNat 4 c.toNat
  else [c]

def stringText (t : Text) : Text := '"' :: t.flatMap stringChar ++ ['"']

def writeString (w : WideText) : Except Unwritable Text := match WideText.plain w with
  | .ok t => .ok (stringText t)
  | .error run => .error (.half run)

def floatText : Binary64 → Text
  | .finite negative m e => Binary64.compact.finiteText negative m e
  | _ => "null".toList

mutual

/-- Writes a value, with so many levels of values allowed from it on. -/
def write : Nat → Json → Except Unwritable Text
  | 0, _ => .error .tooDeep
  | _ + 1, .null => .ok "null".toList
  | _ + 1, .bool true => .ok "true".toList
  | _ + 1, .bool false => .ok "false".toList
  | _ + 1, .int n => .ok (Text.ofInt n)
  | _ + 1, .float x => .ok (floatText x)
  | _ + 1, .str s => writeString s
  | levels + 1, .arr items => match writeItems levels items with
    | .ok ts => .ok ('[' :: Text.joinWith [','] ts ++ [']'])
    | .error e => .error e
  | levels + 1, .obj members => match writeMembers levels members with
    | .ok ts => .ok ('{' :: Text.joinWith [','] ts ++ ['}'])
    | .error e => .error e

def writeItems (levels : Nat) : List Json → Except Unwritable (List Text)
  | [] => .ok []
  | v :: r => match write levels v with
    | .error e => .error e
    | .ok t => (writeItems levels r).map (t :: ·)

def writeMembers (levels : Nat) : Members → Except Unwritable (List Text)
  | [] => .ok []
  | (k, v) :: r => match writeString k with
    | .error e => .error e
    | .ok key => match write levels v with
      | .error e => .error e
      | .ok t => (writeMembers levels r).map ((key ++ ':' :: t) :: ·)

end

end ParserRelay.Json
