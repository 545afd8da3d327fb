import ParserRelay.Message.Basic
import ParserRelay.Text.Blank
/-! Sorting the chunks of an error stream as they arrive: a chunk whose trimmed text writes a
message is one, any other chunk is chatter and is kept as it came. -/
namespace ParserRelay

structure Interpreter where
  messages : List Message
  chatter : List WideText
  hasErrors : Bool

namespace Interpreter

def start : Interpreter := ⟨[], [], false⟩

def chatterText (i : Interpreter) : WideText := i.chatter.flatten

structure Heard where
  next : Interpreter
  message : Option Message
  log : Log

def feed (logger : WideText) (i : Interpreter) (chunk : WideText) : Heard :=
  match Message.parse? (Text.trim chunk) with
  | none => ⟨{ i with chatter := i.chatter ++ [chunk] }, none, [Log.debug logger (Text.trim chunk)]⟩
  | some m =>
    let summary := Message.report logger [m]
    ⟨{ i with messages := i.messages ++ [m], hasErrors := i.hasErrors || summary.hasErrors }, some m,
      summary.log⟩

def feedAll (logger : WideText) (i : Interpreter) : List WideText → Interpreter × Log
  | [] => (i, [])
  | c :: r =>
    let heard := i.feed logger c
    let (last, log) := feedAll logger heard.next r
    (last, heard.log ++ log)

end Interpreter
end ParserRelay
