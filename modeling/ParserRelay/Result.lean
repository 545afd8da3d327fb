import ParserRelay.Failure
import ParserRelay.Text.Blank
/-! The result of a successful parser run: the one JSON object on its standard output. -/
namespace ParserRelay.Result

/-- About what a program that does nothing else leaves of the interpreter's stack of 1000 calls. -/
def usualRoom : Nat := 984

/-- The room is what the calls in use leave for nested containers. Named numbers and faults are calls
as well, so that one and the same stack may have a few levels less for a text that has them. -/
def parse (stdout : WideText) (room : Nat := usualRoom) : Except Failure Json.Members :=
  if Text.allBlank stdout then .error (.emptyResult stdout) else
  match Json.read (Json.documents room) stdout with
  | .ok (.obj members) => .ok members
  | .ok v => .error (.notAnObject v.kindName stdout)
  | .error ⟨.tooLong limit digits, _⟩ => .error (.numberTooLong limit digits)
  | .error ⟨.tooDeep, _⟩ => .error .tooDeep
  | .error f => .error (.undecodable f stdout)

end ParserRelay.Result
