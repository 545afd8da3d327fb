import ParserRelay.Call
import ParserRelay.Environment.Interpolation
import ParserRelay.FileSystem.Listing
/-! Sessions: steps one after another on one host, whose files and settings they see and change. A
step that fails leaves the host as far as it came. -/
namespace ParserRelay

structure Host where
  files : FileSystem
  environment : Environment
  interpreter : WideText

inductive Step
  | setVariable (key value : WideText)
  | unsetVariable (key : WideText)
  | reload (mapping : Entries (Option WideText))
  | reloadFile (file : Option Text)
  | plant (path : Path) (what : FileSystem.Planting)
  | remove (path : Path)
  | run (limit : Option Int) (job : Job) (script : Script)
  | call (registry : Registry) (call : Call) (script : Script)

inductive Answer
  | done
  | failed (e : Failure)
  | ran (r : Report)
  | called (r : Response)

namespace Host

def workplace (h : Host) : Workplace := ⟨h.files, h.interpreter⟩

def withVariables (h : Host) : Except Environment.VariableError Environment → Host × Answer
  | .ok env => ({ h with environment := env }, .done)
  | .error e => (h, .failed (.variable e))

def withFiles (h : Host) (c : FileSystem.Change) : Host × Answer :=
  ({ h with files := c.after }, match c.failure with
    | none => .done
    | some e => .failed (.file e))

def step (h : Host) : Step → Host × Answer
  | .setVariable key value => h.withVariables (h.environment.setVariable key value)
  | .unsetVariable key => h.withVariables (h.environment.unsetVariable key)
  | .reload mapping => ({ h with environment := h.environment.reload mapping }, .done)
  | .reloadFile file =>
    let loading := h.environment.reloadFile file
    ({ h with environment := loading.after }, match loading.failure with
      | none => .done
      | some e => .failed (.variable e))
  | .plant path what => h.withFiles (h.files.plant path what)
  | .remove path => h.withFiles (h.files.removeAll path)
  | .run limit job script =>
    let r := Run.run h.files (h.environment.limitFor limit) job script
    ({ h with files := r.files }, .ran r)
  | .call registry c script =>
    let r := c.run h.workplace h.environment registry script
    ({ h with files := r.files }, .called r)

def steps (h : Host) : List Step → Host × List Answer
  | [] => (h, [])
  | s :: r =>
    let (h, a) := h.step s
    let (last, as) := h.steps r
    (last, a :: as)

end Host
end ParserRelay
