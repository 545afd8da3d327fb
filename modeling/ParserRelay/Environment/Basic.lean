import ParserRelay.Number.IntegerText
import ParserRelay.Text.SystemForm
/-! Settings from two sources: the variables of the process, and the mapping of a settings file. The
mapping decides by one of its own entries whether it alone counts. -/
namespace ParserRelay

/-- Values under distinct keys, in the order in which the keys came. -/
abbrev Entries (α : Type) := List (WideText × α)

namespace Entries
variable {α : Type}

def get? (key : WideText) : Entries α → Option α
  | [] => none
  | (k, v) :: r => if k = key then some v else get? key r

def set (key : WideText) (value : α) : Entries α → Entries α
  | [] => [(key, value)]
  | (k, v) :: r => if k = key then (k, value) :: r else (k, v) :: set key value r

def unset (key : WideText) (e : Entries α) : Entries α := e.filter (·.1 ≠ key)

end Entries

structure Environment where
  process : Entries WideText
  mapping : Entries (Option WideText)

namespace Environment

def start : Environment := ⟨[], []⟩

def forceKey : WideText := .ofString "CODELINK_FORCE_ENV_OVERRIDE"

def forces (mapping : Entries (Option WideText)) : Bool :=
  match (mapping.get? forceKey).join.bind WideText.toText? with
  | some t => Text.asciiLower (Text.trim t) = "true".toList
  | none => false

def forced (env : Environment) : Bool := forces env.mapping

def get? (env : Environment) (key : WideText) : Option WideText :=
  if env.forced then (env.mapping.get? key).join else env.process.get? key.systemForm

def integer? (value : WideText) : Option Int := (WideText.toText? value).bind IntegerText.parse?

def limitKey : WideText := .ofString "CODELINK_STREAM_LIMIT"

def defaultLimit : Int := 10 * 1024 * 1024

def streamLimit (env : Environment) : Int :=
  let n := ((env.get? limitKey).bind integer?).getD defaultLimit
  if 0 < n then n else defaultLimit

def limitFor (env : Environment) (given : Option Int) : Int := match given with
  | some n => if n = 0 then env.streamLimit else n
  | none => env.streamLimit

def reload (env : Environment) (mapping : Entries (Option WideText)) : Environment := { env with mapping }

inductive VariableError
  | unencoded (run : LoneRun)
  | nullCharacter
  | illegalName
  | emptyName

def VariableError.message : VariableError → Text
  | .unencoded run => run.message
  | .nullCharacter => "embedded null byte".toList
  | .illegalName => "illegal environment variable name".toList
  | .emptyName => "[Errno 22] Invalid argument".toList

/-- What the system takes as a name or value of a variable, as far as its encoded form goes. -/
def encoded (t : WideText) : Except VariableError Unit := match WideText.refused? t with
  | some run => .error (.unencoded run)
  | none => .ok ()

def lookup (env : Environment) (key : WideText) : Except VariableError (Option WideText) := do
  if !env.forced then encoded key
  .ok (env.get? key)

def getD (env : Environment) (key : WideText) (default : Option WideText) :
    Except VariableError (Option WideText) := (env.lookup key).map (·.or default)

def getInt (env : Environment) (key : WideText) (default : Int) : Except VariableError Int :=
  (env.lookup key).map fun value => (value.bind integer?).getD default

def setVariable (env : Environment) (key value : WideText) : Except VariableError Environment := do
  encoded key
  encoded value
  if key.contains (.char '\x00') || value.contains (.char '\x00') then .error .nullCharacter
  else if key.contains (.char '=') then .error .illegalName
  else if key.isEmpty then .error .emptyName
  else .ok { env with process := env.process.set key.systemForm value.systemForm }

def unsetVariable (env : Environment) (key : WideText) : Except VariableError Environment := do
  encoded key
  .ok { env with process := env.process.unset key.systemForm }

end Environment
end ParserRelay
