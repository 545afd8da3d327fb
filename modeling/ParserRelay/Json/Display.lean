import ParserRelay.Json.Basic
import ParserRelay.Number.Layout
import ParserRelay.Text.Quoted
/-! The displayed form of a value in diagnostics: strings inside a collection are quoted, a string
by itself stands as it is. An integer of more than 4300 digits is displayed like any other, where the
interpreter refuses to write one: a value that holds such an integer is outside the model. -/
namespace ParserRelay.Json

mutual

def inner : Json → WideText
  | .null => WideText.ofText "None".toList
  | .bool true => WideText.ofText "True".toList
  | .bool false => WideText.ofText "False".toList
  | .int n => WideText.ofText (Text.ofInt n)
  | .float x => WideText.ofText x.displayText
  | .str s => WideText.ofText (Text.quoted s)
  | .arr items => .char '[' :: innerItems items ++ [.char ']']
  | .obj members => .char '{' :: innerMembers members ++ [.char '}']

def innerItems : List Json → WideText
  | [] => []
  | v :: r => inner v ++ if r.isEmpty then [] else .char ',' :: .char ' ' :: innerItems r

def innerMembers : Members → WideText
  | [] => []
  | (k, v) :: r => WideText.ofText (Text.quoted k ++ [':', ' ']) ++ inner v
    ++ if r.isEmpty then [] else .char ',' :: .char ' ' :: innerMembers r

end

def display : Json → WideText
  | .str s => s
  | v => inner v

def isFalsy : Json → Bool
  | .null => true
  | .bool b => !b
  | .int n => n = 0
  | .float (.finite _ m _) => m = 0
  | .float _ => false
  | .str s => s.isEmpty
  | .arr items => items.isEmpty
  | .obj members => members.isEmpty

end ParserRelay.Json
