import ParserRelay.Text.CodePoint
/-! A child process as its parent sees it: it may be fed, waited for and killed. What it does by itself
is fixed beforehand by a script. -/
namespace ParserRelay

inductive DeliveryFault
  | brokenPipe
  | connectionReset
  | other (kind : Text)
  deriving DecidableEq

/-- What a process does: its output is at hand at once, and it exits by itself unless it hangs. -/
structure Script where
  stdout : Bytes
  stderr : Bytes
  exitCode : Int
  startFault : Option (Text × WideText)
  flushFault : Option DeliveryFault
  exitsEarly : Bool
  hangs : Bool

structure Child where
  script : Script
  exit : Option Int
  written : List Bytes
  inputClosed : Bool
  killed : Bool

namespace Child

def start (s : Script) : Child := ⟨s, none, [], false, false⟩

def input (c : Child) : Bytes := c.written.flatten

def write (c : Child) (data : Bytes) : Child := { c with written := c.written ++ [data] }

def flush (c : Child) : Child × Option DeliveryFault :=
  match c.script.flushFault with
  | none => (c, none)
  | some f => (if c.script.exitsEarly then { c with exit := some c.script.exitCode } else c, some f)

def closeInput (c : Child) : Child := { c with inputClosed := true }

def killedCode : Int := -9

/-- Waits for the exit; nothing comes back if the caller is cancelled meanwhile. -/
def wait (c : Child) : Child × Option Int :=
  match c.exit with
  | some n => (c, some n)
  | none =>
    if c.killed then ({ c with exit := some killedCode }, some killedCode)
    else if c.script.hangs then (c, none)
    else ({ c with exit := some c.script.exitCode }, some c.script.exitCode)

def stop (c : Child) : Child :=
  if c.exit.isSome then c else (wait { c with killed := true }).1

end Child
end ParserRelay
