import ParserRelay.Message.Basic
/-! What is observed of a parser process that ran to its exit. -/
namespace ParserRelay

structure Outcome where
  command : List WideText
  exitCode : Int
  stdout : Text
  stderr : WideText
  messages : List Message
  hasErrors : Bool

end ParserRelay
