import ParserRelay.Proofs.Call.Plan
import ParserRelay.Proofs.Message.Sorting
import ParserRelay.Proofs.Result.Reading
import ParserRelay.Proofs.Run.Exit
import ParserRelay.Proofs.Stream.Lines
/-!
# The answer of a call

A call whose process came to its exit is answered by the exit code and one of the two streams: the
output is read if the code is zero, and otherwise the call fails with the code and what the error
stream holds besides messages. The other stream makes no difference to the answer.
-/
namespace ParserRelay
open WideText (ofString ofText)

namespace Failure

variable {code : Int} {hint : Option WideText} {outcome : Option Outcome}

theorem message_of_hint {t : WideText} (h : hint = some t) (ht : t ≠ []) :
    (exited code hint outcome).message =
      ofString "Parser exited with code " ++ ofText (Text.ofInt code) ++ ofString ": " ++ t := by
  simp [message, exitMessage, h, ht]

theorem message_of_no_hint (h : ∀ t, hint = some t → t = []) :
    (exited code hint outcome).message =
      ofString "Parser exited with code " ++ ofText (Text.ofInt code) := by
  cases hint with
  | none => simp [message, exitMessage]
  | some t => simp [message, exitMessage, h t rfl]

end Failure

/-- What a process leaves that was started with the arguments and came to its exit. The error stream
is taken apart at its line ends; the lines that are messages are kept as such, the others as text. -/
structure Outcome.Tells (out : Outcome) (arguments : List WideText) (s : Script) : Prop where
  command : out.command = arguments
  exitCode : out.exitCode = s.exitCode
  stdout : out.stdout = Text.ofUtf8 s.stdout
  lines : ∃ lines, LineReader.IsLines s.stderr lines ∧
    out.messages = (lines.map fun l => ofText (Text.ofUtf8 l)).filterMap Interpreter.message? ∧
    out.stderr = ((lines.map fun l => ofText (Text.ofUtf8 l)).filter fun chunk =>
      (Interpreter.message? chunk).isNone).flatten
  hasErrors : out.hasErrors = true ↔ ∃ m ∈ out.messages, m.level = .error

theorem Run.tells_outcome (arguments : List WideText) (s : Script) (limit : Int) (logger : WideText) :
    (outcome arguments s s.exitCode (hear limit logger s.stderr).1).Tells arguments s := by
  have hsorted := Interpreter.sorted_feedAll logger
    ((LineReader.lines limit.toNat s.stderr).map fun l => ofText (Text.ofUtf8 l))
  exact ⟨rfl, rfl, rfl, ⟨_, LineReader.isLines_lines limit.toNat s.stderr, hsorted.messages,
    hsorted.chatterText⟩, hsorted.hasErrors⟩

namespace Call

variable {w : Workplace} {env : Environment} {registry : Registry} {c : Call} {s : Script}
  {config : Config} {request : Request} {d : Descriptor} {command : WideText} {log : Log}
  {report : Report} {child : Child} {out : Outcome} {room : ℕ}

theorem answer_of_zero (h : out.exitCode = 0) :
    answer registry d room out = Result.parse (.ofText out.stdout) room := if_pos h

/-- A call whose process came to its exit is answered by its output if the exit code is zero, and by
a failure with the code and the advice of its own descriptor otherwise. -/
theorem answer_of_exit (hconfig : Config.validate c.config = .ok config)
    (hrequest : Request.ofJson c.request = .ok request)
    (hd : registry.get (.ofText config.parser) = .ok d)
    (hcommand : d.command w c.cwd config (.ofText request.mode.name) = .ok (command, log))
    (hrun : (c.run w env registry s).run = some report) (hchild : report.child = some child)
    (hexit : child.killed = false)
    (hdelivery : d.requestPath c.cwd = none → Run.deliveryFailure? s.flushFault = none) :
    ∃ out, report.result = .ok out ∧ out.Tells (Text.words command) s ∧
      (s.exitCode = 0 →
        (c.run w env registry s).result = Result.parse (.ofText (Text.ofUtf8 s.stdout)) c.room) ∧
      (s.exitCode ≠ 0 → ∃ e, (c.run w env registry s).result = .error e ∧
        e = .exited s.exitCode (d.hint out.stderr) (some out) ∧
        (∀ t, d.hint out.stderr = some t → t ≠ [] → e.message =
          ofString "Parser exited with code " ++ ofText (Text.ofInt s.exitCode) ++ ofString ": " ++ t) ∧
        ((∀ t, d.hint out.stderr = some t → t = []) → e.message =
          ofString "Parser exited with code " ++ ofText (Text.ofInt s.exitCode))) := by
  have hplan := plan_eq hconfig hrequest hd hcommand
  obtain ⟨p, hp, rfl⟩ := run_cases hrun
  cases hplan.symm.trans hp
  have hok := Run.result_of_alive hchild hexit hdelivery
  rw [result_of_plan hplan, hok]
  refine ⟨_, rfl, Run.tells_outcome _ s _ _, fun hz => answer_of_zero hz, fun hz => ?_⟩
  have hanswer (out : Outcome) (hout : out.exitCode = s.exitCode) :
      answer registry d c.room out = .error (.exited s.exitCode (d.hint out.stderr) (some out)) := by
    rw [answer, if_neg (by rwa [hout]), Registry.hint?_name hd, hout]
  exact ⟨_, hanswer _ rfl, rfl, fun t ht hne => Failure.message_of_hint ht hne,
    Failure.message_of_no_hint⟩

def echoing : Descriptor := ⟨ofString "echo", none, fun _ _ _ _ => .ok (ofString "echo --json", []), some⟩

def echoRegistry : Registry := ⟨[.swift, echoing], by decide⟩

def echoWorkplace : Workplace := ⟨.empty, ofString "python"⟩

def echoCall : Call where
  config := .object (some (.value (.str (ofString "echo")))) []
  request := .obj [(ofText Request.modeKey, .ofText Mode.create.name)]
  cwd := ofString "/"
  limit := none
  started := .whole 0
  ended := .whole 0

def exiting (code : Int) (stdout stderr : String) : Script :=
  ⟨Text.toUtf8 stdout.toList, Text.toUtf8 stderr.toList, code, none, some .brokenPipe, false, false⟩

/-- The output of this process is an object, but its code is not zero. -/
def complaining : Script := exiting 2 "\x7b\x7d"
  "\x7b\"level\":\"ERROR\",\"message\":\"full\"\x7d\nno space"

theorem echo_of_exit : ∃ out,
    (echoCall.run echoWorkplace .start echoRegistry complaining).result =
      .error (.exited 2 (some (ofString "no space")) (some out)) ∧
    out.messages = [⟨.error, ofString "full"⟩] := by
  have hrun : (echoCall.run echoWorkplace .start echoRegistry complaining).run.isSome = true := by
    decide +kernel
  obtain ⟨report, hrun⟩ := Option.isSome_iff_exists.mp hrun
  have hchild : ((echoCall.run echoWorkplace .start echoRegistry complaining).run.bind
      Report.child).map Child.killed = some false := by decide +kernel
  rw [hrun] at hchild
  obtain ⟨child, hchild, hexit⟩ := Option.map_eq_some_iff.mp hchild
  have hconfig : Config.validate echoCall.config =
      .ok ⟨ofString "echo", none, none, none, [Config.parserKey], []⟩ := by rfl
  have hrequest : Request.ofJson echoCall.request = .ok ⟨.create, []⟩ := by rfl
  have hd : echoRegistry.get (.ofText (ofString "echo")) = .ok echoing := by rfl
  obtain ⟨out, -, htells, -, hfail⟩ := answer_of_exit hconfig hrequest hd rfl hrun hchild hexit
    (fun _ => rfl)
  obtain ⟨lines, hlines, hmessages, hstderr⟩ := htells.lines
  obtain rfl := (LineReader.isLines_iff 64).mp hlines
  obtain ⟨e, he, rfl, -⟩ := hfail (by decide)
  have htext : out.stderr = ofString "no space" := hstderr.trans (by decide +kernel)
  have hheard : out.messages = [⟨.error, ofString "full"⟩] := hmessages.trans (by decide +kernel)
  rw [htext] at he
  exact ⟨out, he, hheard⟩

/-- Whatever a process writes that exits with zero, its call ends as the reading of this text does:
with an object or with a refusal that keeps the text, unless the text passes a bound of the reader. How
deep it may nest is the room that the stack leaves, and this may be any. -/
theorem zero_exit_ends (t : WideText) : (∀ room, Result.Ends t room (Result.parse t room)) ∧
    (∀ room limit, Json.NumbersWithin (.integers 4300) t → Json.NestsWithin limit t → limit < room →
      Result.Kept t (Result.parse t room)) ∧
    ∀ (w : Workplace) (env : Environment) (registry : Registry) (c : Call) (s : Script)
      (report : Report) (out : Outcome), (c.run w env registry s).run = some report →
      report.result = .ok out → out.exitCode = 0 → .ofText out.stdout = t →
      (c.run w env registry s).result = Result.parse t c.room := by
  refine ⟨Result.parse_ends t, fun room limit => (Result.parse_ends t room).kept, ?_⟩
  rintro w env registry c s report out hrun hout hz rfl
  obtain ⟨p, hp, rfl⟩ := run_cases hrun
  rw [result_of_plan hp, hout]
  exact answer_of_zero hz

theorem echo_ends : (echoCall.run echoWorkplace .start echoRegistry (exiting 0 "[1]" "")).result =
    Result.parse (ofString "[1]") := by
  have h : (echoCall.run echoWorkplace .start echoRegistry (exiting 0 "[1]" "")).run.bind (fun r =>
      r.result.toOption.map fun out => (out.exitCode, out.stdout)) = some (0, "[1]".toList) := by
    decide +kernel
  obtain ⟨report, hrun, h⟩ := Option.bind_eq_some_iff.mp h
  obtain ⟨out, hout, h⟩ := Option.map_eq_some_iff.mp h
  obtain ⟨hz, hstdout⟩ := Prod.mk.inj h
  have hok : report.result = .ok out := by
    cases hr : report.result with
    | error e =>
      rw [hr] at hout
      cases hout
    | ok x =>
      rw [hr] at hout
      cases hout
      rfl
  have htext : ofText out.stdout = ofString "[1]" := congrArg ofText hstdout
  exact (zero_exit_ends (ofString "[1]")).2.2 _ _ _ _ _ report out hrun hok hz htext

end Call
end ParserRelay
