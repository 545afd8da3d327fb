import ParserRelay.Identifier
import ParserRelay.Text.Blank
import ParserRelay.Text.Order
import ParserRelay.Validation
/-! The parser section of a project configuration. Three paths may be given under their usual key or
under the plain name of the field; all other members are kept as they are. -/
namespace ParserRelay

/-- The optional paths of a configuration, in the order of their checks. -/
inductive PathField
  | customSwiftCli
  | xcodeproj
  | gradleWrapper
  deriving DecidableEq

namespace PathField

def all : List PathField := [.customSwiftCli, .xcodeproj, .gradleWrapper]

def name : PathField → Text
  | .customSwiftCli => "custom_swift_cli_path".toList
  | .xcodeproj => "xcodeproj_path".toList
  | .gradleWrapper => "gradle_wrapper_path".toList

def usualKey : PathField → Text
  | .customSwiftCli => "customSwiftCLIPath".toList
  | .xcodeproj => "xcodeprojPath".toList
  | .gradleWrapper => "gradleWrapperPath".toList

def taken? (f : PathField) (members : Json.Members) : Option (Text × Json) :=
  match Json.Members.get? (.ofText f.usualKey) members with
  | some v => some (f.usualKey, v)
  | none => (Json.Members.get? (.ofText f.name) members).map (f.name, ·)

def check (f : PathField) (members : Json.Members) : Checked (Option WideText) :=
  match f.taken? members with
  | none => .ok none
  | some (_, .null) => .ok none
  | some (key, v) => (Checked.string key v).map some

end PathField

structure Config where
  parser : WideText
  customSwiftCli : Option WideText
  xcodeproj : Option WideText
  gradleWrapper : Option WideText
  given : List Text
  extra : Json.Members

namespace Config

def parserKey : Text := "parser".toList

/-- What a configuration is made from: an object whose parser is held apart, or anything else. -/
inductive Source
  | object (parser : Option ParserName) (others : Json.Members)
  | other

def Source.ofJson : Json → Source
  | .obj members => .object ((Json.Members.get? (.ofText parserKey) members).map .value)
      (members.filter (·.1 ≠ .ofText parserKey))
  | _ => .other

/-- The name of a parser without white space around it; a built-in one stands as it is. The value is
one that has a displayed form: no integer in it is longer than 4300 digits. -/
def parserText : ParserName → WideText
  | .builtIn p => .ofText p.name
  | .value v => Text.trim v.display

def leftOver (members : Json.Members) : Json.Members :=
  let taken := PathField.all.filterMap fun f => (f.taken? members).map (·.1)
  members.filter fun (k, _) => !taken.any fun t => WideText.ofText t = k

def givenFields (members : Json.Members) : List Text :=
  parserKey :: (PathField.all.filter fun f => (f.taken? members).isSome).map PathField.name

def validate : Source → Checked Config
  | .other => .error [⟨none, .notObject .config⟩]
  | .object parser others =>
    let name := match parser with
      | some p => .ok (parserText p)
      | none => .fault parserKey .missing
    let paths := .both Prod.mk (PathField.customSwiftCli.check others)
      (.both Prod.mk (PathField.xcodeproj.check others) (PathField.gradleWrapper.check others))
    .withPlainKeys others (.both (fun name (swift, xcode, gradle) =>
      ⟨name, swift, xcode, gradle, givenFields others, leftOver others⟩) name paths)

/-- The fields that were given and the keys of the other members, each once, in order. -/
def fieldsSet (c : Config) : List WideText :=
  Text.sortBy Text.codes (c.given.map WideText.ofText ++ Json.Members.keys c.extra).eraseDups

end Config
end ParserRelay
