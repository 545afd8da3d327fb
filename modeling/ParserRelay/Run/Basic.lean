import ParserRelay.Failure
import ParserRelay.FileSystem.Edit
import ParserRelay.Message.Interpreter
import ParserRelay.Number.Layout
import ParserRelay.Request
import ParserRelay.Run.Child
import ParserRelay.Stream.LineReader
import ParserRelay.Text.Utf8
/-! One run of a parser process. The request goes to its standard input or through a file, its error
stream is interpreted line by line, and every way to end takes the file away again and leaves no
process running. -/
namespace ParserRelay

inductive Instant
  | whole (n : Int)
  | measured (x : Binary64)

namespace Instant

def toBinary64 : Instant → Binary64
  | .whole n => .ofInt n
  | .measured x => x

def elapsed : Instant → Instant → Binary64
  | .whole m, .whole n => .ofInt (n - m)
  | s, e => Binary64.sub e.toBinary64 s.toBinary64

end Instant

structure Job where
  command : WideText
  cwd : WideText
  request : Request
  requestPath : Option Path
  logger : WideText
  started : Instant
  ended : Instant

inductive Channel
  | pipe
  | null
  deriving DecidableEq

/-- A process that was asked for, with the files as they were at that moment. -/
structure Spawn where
  arguments : List WideText
  cwd : WideText
  channel : Channel
  limit : Int
  files : FileSystem

structure Report where
  result : Except Failure Outcome
  spawn : Option Spawn
  child : Option Child
  files : FileSystem
  log : Log

def Report.refused (files : FileSystem) (e : Failure) : Report := ⟨.error e, none, none, files, []⟩

namespace Run

def prepare (files : FileSystem) (p : Path) (content : Bytes) : FileSystem.Change :=
  let c := files.makeDirectories p.parent
  match c.failure with
  | some e => ⟨c.after, some e⟩
  | none => c.after.write p content

/-- Gives the request to a process and closes its input. A process that no longer reads is no failure. -/
def deliver (c : Child) (content : Bytes) : Child × Option DeliveryFault :=
  match (c.write content).flush with
  | (c, fault) => (c.closeInput, fault)

def deliveryFailure? : Option DeliveryFault → Option Failure
  | some (.other kind) => some (.notDelivered kind)
  | _ => none

def deliveryLog : Option DeliveryFault → Log
  | some .brokenPipe | some .connectionReset =>
    [Log.debug Log.runner (.ofString "Parser closed stdin before reading the whole request")]
  | _ => []

structure Attended where
  child : Child
  result : Except Failure (Int × Interpreter)
  log : Log

/-- What is heard on the error stream, read through a buffer with this limit. The limit is meant to be
positive: a stream reader refuses any other, and here a negative one is taken for zero. -/
def hear (limit : Int) (logger : WideText) (stderr : Bytes) : Interpreter × Log :=
  Interpreter.start.feedAll logger
    ((LineReader.lines limit.toNat stderr).map fun line => .ofText (Text.ofUtf8 line))

def await (limit : Int) (job : Job) (c : Child) : Attended :=
  match c.wait with
  | (c, none) => ⟨c.stop, .error .cancelled, []⟩
  | (c, some code) =>
    let (heard, log) := hear limit job.logger c.script.stderr
    ⟨c, .ok (code, heard), log⟩

/-- Attends a started process: delivers the request unless it is in a file, and waits for the exit.
A failed delivery stops the process. -/
def attend (limit : Int) (job : Job) (content : Bytes) (c : Child) : Attended :=
  if job.requestPath.isSome then await limit job c
  else
    let (c, fault) := deliver c content
    match deliveryFailure? fault with
    | some e => ⟨c.stop, .error e, []⟩
    | none =>
      let a := await limit job c
      { a with log := deliveryLog fault ++ a.log }

/-- The removal of the request file at the end of a run. A failure of it takes the place of the result. -/
def cleanUp (p : Option Path) (r : Report) : Report := match p with
  | none => r
  | some p =>
    let c := r.files.discard p
    match c.failure with
    | none => { r with files := c.after }
    | some e => { r with files := c.after, result := .error (.file e) }

def exitLog (job : Job) (code : Int) : LogRecord :=
  Log.debug Log.runner (.ofText ("Parser exited with code ".toList ++ Text.ofInt code ++ " after ".toList
    ++ (Instant.elapsed job.started job.ended).fixedText 2 ++ ['s']))

def outcome (args : List WideText) (s : Script) (code : Int) (heard : Interpreter) : Outcome :=
  ⟨args, code, Text.ofUtf8 s.stdout, heard.chatterText, heard.messages, heard.hasErrors⟩

def execute (files : FileSystem) (limit : Int) (job : Job) (args : List WideText) (content : Bytes)
    (s : Script) : Report :=
  let channel := if job.requestPath.isSome then .null else .pipe
  let spawn : Spawn := ⟨args, job.cwd, channel, limit, files⟩
  let log := [Log.debug Log.runner (.ofString "Running parser: " ++ job.command),
    Log.debug Log.runner (.ofString "Working directory: " ++ job.cwd)]
  match s.startFault with
  | some (kind, message) => ⟨.error (.notStarted kind message), some spawn, none, files, log⟩
  | none =>
    let a := attend limit job content (.start s)
    ⟨a.result.map fun (code, heard) => outcome args s code heard, some spawn, some a.child, files,
      log ++ a.log⟩

def guarded (files : FileSystem) (limit : Int) (job : Job) (args : List WideText) (content : Bytes)
    (s : Script) : Report :=
  match job.requestPath with
  | none => execute files limit job args content s
  | some p =>
    let c := prepare files p content
    match c.failure with
    | some e => ⟨.error (.file e), none, none, c.after, []⟩
    | none => execute c.after limit job args content s

/-- Runs a parser process to its end, its streams read through buffers of the given limit. -/
def run (files : FileSystem) (limit : Int) (job : Job) (s : Script) : Report :=
  match Text.words job.command with
  | [] => .refused files .emptyCommand
  | args => match job.request.render with
    | .error cause => .refused files (.unwritableRequest cause)
    | .ok t =>
      let r := cleanUp job.requestPath (guarded files limit job args (Text.toUtf8 t) s)
      match r.result with
      | .ok out => { r with log := r.log ++ [exitLog job out.exitCode] }
      | .error _ => r

end Run
end ParserRelay
