import ParserRelay.Json.Reader
import ParserRelay.Log
import ParserRelay.Validation
/-! Messages that a parser sends while it runs: a level and a text, written as one JSON object. -/
namespace ParserRelay

inductive Level
  | debug
  | info
  | warn
  | error
  deriving DecidableEq

namespace Level

def all : List Level := [.debug, .info, .warn, .error]

def name : Level → Text
  | .debug => "DEBUG".toList
  | .info => "INFO".toList
  | .warn => "WARN".toList
  | .error => "ERROR".toList

def ofName? (t : Text) : Option Level := all.find? (·.name = t)

def severity : Level → Severity
  | .debug => .debug
  | .info => .info
  | .warn => .warning
  | .error => .error

theorem ofName?_name (l : Level) : ofName? l.name = some l := by cases l <;> decide

theorem name_of_ofName? {t : Text} {l : Level} (h : ofName? t = some l) : l.name = t := by
  simpa using List.find?_some h

end Level

structure Message where
  level : Level
  text : WideText
  deriving DecidableEq

namespace Message

def levelKey : Text := "level".toList
def textKey : Text := "message".toList

def checkLevel : Json → Checked Level := .choice levelKey Level.ofName? .unknownLevel

def ofJson : Json → Checked Message
  | .obj members => .both Message.mk
      (.required levelKey checkLevel (Json.Members.get? (WideText.ofText levelKey) members))
      (.required textKey (Checked.string textKey) (Json.Members.get? (WideText.ofText textKey) members))
  | _ => .error [⟨none, .notObject .message⟩]

/-- The message that a text writes as one record; one with half a surrogate pair writes none. -/
def parse? (t : WideText) : Option Message := match Json.read Json.records t with
  | .ok v => (ofJson v).toOption
  | .error _ => none

def record (logger : WideText) (m : Message) : LogRecord := ⟨logger, m.level.severity, m.text⟩

structure Summary where
  hasErrors : Bool
  log : Log

def report (logger : WideText) (ms : List Message) : Summary :=
  ⟨ms.any (·.level = .error), ms.map (record logger)⟩

def reportNamed (logger : WideText) (entries : List (WideText × WideText)) : Summary :=
  report logger (entries.filterMap fun (level, text) =>
    ((WideText.toText? level).bind Level.ofName?).map (⟨·, text⟩))

end Message
end ParserRelay
