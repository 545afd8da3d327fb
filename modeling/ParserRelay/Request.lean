import ParserRelay.Json.Printer
import ParserRelay.Validation
/-! Requests to a parser: a mode and any other members, written as one JSON object. -/
namespace ParserRelay

inductive Mode
  | create
  | parse
  deriving DecidableEq

namespace Mode

def all : List Mode := [.create, .parse]

def name : Mode → Text
  | .create => "CREATE".toList
  | .parse => "PARSE".toList

def ofName? (t : Text) : Option Mode := all.find? (·.name = t)

def ofJson? : Json → Option Mode
  | .str s => (WideText.toText? s).bind ofName?
  | _ => none

theorem ofName?_name (m : Mode) : ofName? m.name = some m := by cases m <;> decide

end Mode

structure Request where
  mode : Mode
  extra : Json.Members

namespace Request

def modeKey : Text := "mode".toList

def checkMode : Json → Checked Mode := .choice modeKey Mode.ofName? .unknownMode

def ofJson : Json → Checked Request
  | .obj members => .withPlainKeys members
      ((Checked.required modeKey checkMode (Json.Members.get? (.ofText modeKey) members)).map
        (⟨·, members.filter (·.1 ≠ .ofText modeKey)⟩))
  | _ => .error [⟨none, .notObject .request⟩]

def toJson (r : Request) : Json := .obj ((.ofText modeKey, .ofText r.mode.name) :: r.extra)

def memberLevels : Nat := 255

def render (r : Request) : Except Json.Unwritable Text := r.toJson.write (memberLevels + 1)

/-- Requests cannot be changed: an assignment to any field is refused. A name that begins with an underscore
is no field, and what it is given is not part of the request. -/
def assign (r : Request) (name : WideText) (_ : Json) : Checked Request :=
  if name.head? = some (.char '_') then .ok r else .error [⟨some name, .frozen⟩]

end Request
end ParserRelay
