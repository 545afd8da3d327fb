import ParserRelay.Environment.Basic
import ParserRelay.Registry.Basic
import ParserRelay.Result
import ParserRelay.Run.Basic
/-! A call of a configured parser: configuration and request are checked, the parser is looked up, its
command made and run, and its result read. -/
namespace ParserRelay

structure Call where
  config : Config.Source
  request : Json
  cwd : WideText
  /-- A limit for the streams in place of that of the environment. -/
  limit : Option Int
  started : Instant
  ended : Instant
  /-- What the calls in use leave of the stack for the containers of a result. -/
  room : Nat := Result.usualRoom

/-- What a call leads to. Without a run no process was asked for. -/
structure Response where
  result : Except Failure Json.Members
  run : Option Report
  files : FileSystem
  log : Log

namespace Call

structure Plan where
  descriptor : Descriptor
  job : Job
  log : Log

def checked {α : Type} : Checked α → Except Failure α
  | .ok a => .ok a
  | .error issues => .error (.invalid issues)

def plan (w : Workplace) (registry : Registry) (c : Call) : Except Failure Plan := do
  let config ← checked (Config.validate c.config)
  let request ← checked (Request.ofJson c.request)
  let descriptor ← registry.get (.ofText config.parser)
  let (command, log) ← descriptor.command w c.cwd config (.ofText request.mode.name)
  .ok ⟨descriptor, ⟨command, c.cwd, request, descriptor.requestPath c.cwd, Log.parser,
    c.started, c.ended⟩, log⟩

def answer (registry : Registry) (d : Descriptor) (room : Nat) (out : Outcome) :
    Except Failure Json.Members :=
  if out.exitCode = 0 then Result.parse (.ofText out.stdout) room
  else .error (.exited out.exitCode (registry.hint? out.stderr (.ofText d.name)) (some out))

def run (w : Workplace) (env : Environment) (registry : Registry) (c : Call) (s : Script) : Response :=
  match plan w registry c with
  | .error e => ⟨.error e, none, w.files, []⟩
  | .ok p =>
    let report := Run.run w.files (env.limitFor c.limit) p.job s
    ⟨report.result.bind (answer registry p.descriptor c.room), some report, report.files, p.log ++ report.log⟩

end Call
end ParserRelay
