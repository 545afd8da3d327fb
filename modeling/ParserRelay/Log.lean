import ParserRelay.Text.CodePoint
/-! Log records in the order in which they are made. Each names its logger. -/
namespace ParserRelay

inductive Severity
  | debug
  | info
  | warning
  | error
  deriving DecidableEq

def Severity.name : Severity → Text
  | .debug => "DEBUG".toList
  | .info => "INFO".toList
  | .warning => "WARNING".toList
  | .error => "ERROR".toList

structure LogRecord where
  logger : WideText
  severity : Severity
  text : WideText
  deriving DecidableEq

abbrev Log := List LogRecord

namespace Log

def runner : WideText := .ofString "codelink.runner"

def parser : WideText := .ofString "codelink.parser"

def toolchain : WideText := .ofString "codelink.toolchain"

def registry : WideText := .ofString "codelink.registry"

def debug (logger text : WideText) : LogRecord := ⟨logger, .debug, text⟩

end Log
end ParserRelay
