import ParserRelay.Json.Display
/-! How callers name parsers: by one of the built-in identifiers or by any value. -/
namespace ParserRelay

inductive BuiltIn
  | swift
  | compose
  | unitTest
  deriving DecidableEq

def BuiltIn.name : BuiltIn → Text
  | .swift => "swift".toList
  | .compose => "compose".toList
  | .unitTest => "__unit_test__".toList

inductive ParserName
  | builtIn (p : BuiltIn)
  | value (v : Json)

namespace ParserName

def ofText (t : WideText) : ParserName := .value (.str t)

/-- The identifier that is looked up: nothing for a value that counts as false. -/
def identifier : ParserName → WideText
  | .builtIn p => .ofText p.name
  | .value v => if v.isFalsy then [] else v.display

end ParserName
end ParserRelay
